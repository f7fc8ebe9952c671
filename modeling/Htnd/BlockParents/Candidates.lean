import Htnd.Lib.BlockDag
import Htnd.Lib.Fallible
import Htnd.Lib.Frontier
import Htnd.BlockParents.Builder

/-!
# What the candidates of a level are

In a graph of which nothing is pruned, every candidate is its own reference.
The candidates of a level are then the maximal ones among all blocks that were
taken for the level so far, in whatever order the range loops meet them.
-/

namespace Htnd.BlockParents.Candidates

open List
open Lib.BlockDag Lib.Fallible Lib.Frontier Lib.RangeLoops Utxo.Entry Builder
  Sigma

/-- The builder is asked about this graph, of which nothing is pruned. -/
structure Unpruned (bpb : BlockParentBuilder) (dag : Dag DomainHash) : Prop where
  isAncestorOf : ∀ first ∈ nodes dag, ∀ second ∈ nodes dag,
    bpb.isAncestorOf first second = .ok (isAncestor dag first second)
  reachable : ∀ block ∈ nodes dag, bpb.hasReachabilityData block = true
  genesisChild : bpb.genesisHash ∈ bpb.virtualGenesisChildren
  children : ∀ child ∈ bpb.virtualGenesisChildren, isVirtualMarker child = false → child ∈ nodes dag
  pruningPoint : bpb.pruningPoint ∈ nodes dag

/-- All blocks descend from the genesis, and none of them is a marker. -/
structure FromGenesis (genesisHash : DomainHash) (dag : Dag DomainHash) : Prop where
  topological : Topological dag
  isNode : genesisHash ∈ nodes dag
  descends : ∀ block ∈ nodes dag, genesisHash = block ∨ InPast dag genesisHash block
  notMarker : ∀ block ∈ nodes dag, isVirtualMarker block = false

theorem FromGenesis.not_before {genesisHash : DomainHash}
    {dag : Dag DomainHash} (rooted : FromGenesis genesisHash dag)
    {block : DomainHash} : ¬ InPast dag block genesisHash := by
  intro past
  have isNode := rooted.topological.ancestor_mem past
  rcases rooted.descends block isNode with same | descends
  · rw [same] at past
    exact rooted.topological.irrefl past
  · exact rooted.topological.irrefl (descends.trans past)

/-- The candidates are the maximal blocks of the set. -/
def Represents (dag : Dag DomainHash) (candidates : CandidateMap) (set : Set DomainHash) : Prop :=
  ∀ hash entry, candidates.lookup hash = some entry ↔
    IsMaximal (InPast dag) set hash ∧ entry = ownEntry hash

/-- The candidates of a level that may not have been started. -/
def RepresentsAt (dag : Dag DomainHash) (candidates : Option CandidateMap)
    (set : Set DomainHash) : Prop :=
  match candidates with
  | none => set = ∅
  | some candidates => Represents dag candidates set

/-- The candidates are the blocks of the set. -/
def Lists (candidates : CandidateMap) (set : Set DomainHash) : Prop :=
  ∀ hash entry, candidates.lookup hash = some entry ↔ hash ∈ set ∧ entry = ownEntry hash

/-- No block of the set is in the past of another. -/
def Unrelated (dag : Dag DomainHash) (set : Set DomainHash) : Prop :=
  ∀ first ∈ set, ∀ second ∈ set, ¬ InPast dag first second

section

variable {bpb : BlockParentBuilder} {dag : Dag DomainHash}
  {set : Set DomainHash} {candidates : CandidateMap}

theorem Unrelated.isMaximal_iff (apart : Unrelated dag set)
    {hash : DomainHash} : IsMaximal (InPast dag) set hash ↔ hash ∈ set :=
  ⟨fun maximal => maximal.1, fun isIn => ⟨isIn, apart hash isIn⟩⟩

theorem Lists.represents (lists : Lists candidates set)
    (apart : Unrelated dag set) : Represents dag candidates set := by
  intro hash entry
  rw [lists hash entry, apart.isMaximal_iff]

theorem lists_empty : Lists ∅ ∅ := by
  intro _ _
  simp

theorem Lists.insert (lists : Lists candidates set) (hash : DomainHash) :
    Lists (candidates.insert hash (ownEntry hash)) (Insert.insert hash set) := by
  intro other entry
  rw [insert_ite]
  by_cases isSame : other = hash
  · subst isSame
    simp [eq_comm]
  · rw [if_neg isSame, lists other entry]
    simp [isSame]

theorem dominated (topo : Topological dag) (set : Set DomainHash) : Dominated (InPast dag) set := by
  refine dominated_of_rank (age dag) dag.length (fun first second =>
    first.trans second) ?_ (age_le dag)
  intro first second past
  induction past with
  | single link => exact topo.age_lt link
  | tail _ link ih => exact (topo.age_lt link).trans ih

/-! ## Queries -/

theorem isAnyAncestorOf_ok (unpruned : Unpruned bpb dag) {blockHash : DomainHash}
    (isNode : blockHash ∈ nodes dag) {others : List DomainHash}
    (areNodes : ∀ hash ∈ others, hash ∈ nodes dag) : isAnyAncestorOf bpb blockHash others =
    .ok (others.any fun hash => isAncestor dag hash blockHash) := by
  induction others with
  | nil => rfl
  | cons first rest ih =>
    rw [isAnyAncestorOf, ok_bind (unpruned.isAncestorOf first
      (areNodes first ((.head _) ..)) blockHash isNode),
      any_cons, ih fun hash isIn => areNodes hash (.tail _ isIn)]
    cases isAncestor dag first blockHash
    · rfl
    · rfl

theorem withHeaders_ok {hashes : List DomainHash} (stored : ∀ hash ∈ hashes,
      ∃ header, bpb.blockHeaderStore.lookup hash = some header) :
    ∃ pairs, withHeaders bpb hashes = .ok pairs ∧ pairs.map Prod.fst = hashes ∧
      ∀ pair ∈ pairs, bpb.blockHeaderStore.lookup pair.1 = some pair.2 := by
  induction hashes with
  | nil => exact ⟨[], rfl, rfl, nofun⟩
  | cons hash rest ih =>
    rcases stored hash ((.head _) ..) with ⟨header, found⟩
    rcases ih fun other isIn => stored other (.tail _ isIn) with ⟨pairs, isRest, keys, values⟩
    refine ⟨(hash, header) :: pairs, ?_, ?_, ?_⟩
    · have isHeader : blockHeader bpb hash = .ok header := by
        rw [blockHeader, found]
      rw [withHeaders, ok_bind isHeader, ok_bind isRest]
      rfl
    · rw [map_cons, keys]
    · intro pair isIn
      rcases mem_cons.mp isIn with rfl | isIn
      · exact found
      · exact values pair isIn

variable {parent : DomainHash}

/-- Every block is after a child of the virtual genesis: the genesis. -/
theorem isInFutureOfChildren_ok (unpruned : Unpruned bpb dag)
    (rooted : FromGenesis bpb.genesisHash dag) {children : List (DomainHash × BlockHeader)}
    (areChildren : children.map Prod.fst = bpb.virtualGenesisChildren.filter fun child =>
    !isVirtualMarker child) (isNode : parent ∈ nodes dag) :
    isInFutureOfChildren bpb children parent = .ok true := by
  have areNodes : ∀ hash ∈ children.map Prod.fst, hash ∈ nodes dag := by
    intro hash isIn
    rw [areChildren, mem_filter] at isIn
    exact unpruned.children hash isIn.1 (by simpa using isIn.2)
  have genesisIn : bpb.genesisHash ∈ children.map Prod.fst := by
    rw [areChildren, mem_filter]
    refine ⟨unpruned.genesisChild, ?_⟩
    rw [rooted.notMarker _ rooted.isNode]
    rfl
  rw [isInFutureOfChildren, if_pos (unpruned.reachable parent isNode),
    isAnyAncestorOf_ok unpruned isNode areNodes]
  refine congrArg Except.ok (any_eq_true.mpr ⟨_, genesisIn, ?_⟩)
  rw [rooted.topological.isAncestor_iff isNode]
  exact rooted.descends parent isNode

/-! ## One parent -/

/-- What comparing a parent with candidates gives. -/
def comparison (dag : Dag DomainHash) (parent : DomainHash)
    (hashes : List DomainHash) : Comparison where
  toRemove := hashes.filter fun hash => isAncestor dag hash parent
  isAncestorOfAnyCandidate := hashes.any fun hash =>
    !isAncestor dag hash parent && isAncestor dag parent hash

theorem compareCandidates_ok (unpruned : Unpruned bpb dag) (isNode : parent ∈ nodes dag)
    {items : List Candidate} (areOwn : ∀ item ∈ items, item.2 = ownEntry item.1)
    (areNodes : ∀ item ∈ items, item.1 ∈ nodes dag) : items.foldlM (compareCandidate bpb parent)
    ⟨[], false⟩ = .ok (comparison dag parent (items.map Sigma.fst)) := by
  suffices loop : ∀ found : Comparison, items.foldlM (compareCandidate bpb parent) found =
      .ok ⟨found.toRemove ++ (comparison dag parent (items.map fst)).toRemove,
      found.isAncestorOfAnyCandidate || (comparison dag parent
      (items.map fst)).isAncestorOfAnyCandidate⟩ from
    loop ⟨[], false⟩
  induction items with
  | nil =>
    intro found
    simp only [comparison, map_nil, filter_nil, append_nil, any_nil, Bool.or_false]
    rfl
  | cons item rest ih =>
    intro found
    have isOwn := areOwn item ((.head _) ..)
    have itemNode := areNodes item ((.head _) ..)
    have inFuture : isInFutureOfReferences bpb item.2.references parent =
        .ok (isAncestor dag item.1 parent) := by
      rw [isOwn]
      exact unpruned.isAncestorOf _ itemNode _ isNode
    have isBefore : isAncestorOfReferences bpb parent item.2.references =
        .ok (isAncestor dag parent item.1) := by
      rw [isOwn]
      exact unpruned.isAncestorOf _ isNode _ itemNode
    have step : compareCandidate bpb parent found item = .ok (if isAncestor dag item.1 parent then
          { found with toRemove := found.toRemove ++ [item.1] }
        else
          { found with
            isAncestorOfAnyCandidate := found.isAncestorOfAnyCandidate ||
              isAncestor dag parent item.1 }) := by
      rw [compareCandidate, ok_bind inFuture]
      cases isAncestor dag item.1 parent with
      | true => rfl
      | false =>
        rcases found with ⟨gone, _ | _⟩
        · rw [ok_bind isBefore]
          cases isAncestor dag parent item.1 <;> rfl
        · rfl
    rw [foldlM_cons, ok_bind step, ih (fun other isIn => areOwn other (.tail _ isIn))
      fun other isIn => areNodes other (.tail _ isIn)]
    rw [comparison, comparison, map_cons]
    cases above : isAncestor dag item.1 parent with
    | true => simp [above]
    | false => simp [above, Bool.or_assoc]

/-- The blocks to be removed are the candidates not after the parent. -/
theorem mem_toRemove {parent hash : DomainHash} (topo : Topological dag)
    (isNode : parent ∈ nodes dag) (hashes : List DomainHash) :
    hash ∈ (comparison dag parent hashes).toRemove ↔ hash ∈ hashes ∧
    (hash = parent ∨ InPast dag hash parent) := by
  rw [comparison, mem_filter, topo.isAncestor_iff isNode]

/-- The parent is before a candidate that is not before it. -/
theorem isAncestorOfAny_iff (topo : Topological dag) (isNode : parent ∈ nodes dag)
    {hashes : List DomainHash} (areNodes : ∀ hash ∈ hashes, hash ∈ nodes dag) :
    (comparison dag parent hashes).isAncestorOfAnyCandidate = true ↔ ∃ hash ∈ hashes,
    InPast dag parent hash := by
  rw [comparison, any_eq_true]
  refine exists_congr fun hash => and_congr_right fun isIn => ?_
  rw [Bool.and_eq_true, Bool.not_eq_true', ← Bool.not_eq_true, topo.isAncestor_iff isNode,
    topo.isAncestor_iff (areNodes hash isIn)]
  constructor
  · rintro ⟨notBefore, same | past⟩
    · exact absurd (.inl same.symm) notBefore
    · exact past
  · intro past
    refine ⟨?_, .inr past⟩
    rintro (same | before)
    · exact topo.irrefl (same ▸ past)
    · exact topo.irrefl (past.trans before)

/-- The candidates after a parent that is before one of them. -/
theorem Represents.of_before (topo : Topological dag) (represents : Represents dag candidates set)
    {parent top : DomainHash} (isTop : IsMaximal (InPast dag) set top)
    (past : InPast dag parent top) : Represents dag candidates (insert parent set) := by
  intro hash entry
  rw [represents hash entry]
  refine and_congr_left fun _ => ?_
  rw [isMaximal_insert (fun first second => first.trans second)
    (fun _ => topo.irrefl) (dominated topo set)]
  constructor
  · intro maximal
    refine .inr ⟨?_, maximal, ?_⟩
    · rintro rfl
      exact maximal.not_before isTop past
    · exact fun before => maximal.not_before isTop (before.trans past)
  · rintro (⟨-, notBefore⟩ | ⟨-, maximal, -⟩)
    · exact absurd past (notBefore top isTop)
    · exact maximal

/-- The candidates after a parent that is before none of them. -/
theorem Represents.of_new (topo : Topological dag) (represents : Represents dag candidates set)
    (notBefore : ∀ top, IsMaximal (InPast dag) set top → ¬ InPast dag parent top)
    {toRemove : List DomainHash} (gone : ∀ hash, IsMaximal (InPast dag) set hash →
    (hash ∈ toRemove ↔ hash = parent ∨ InPast dag hash parent)) :
    Represents dag ((toRemove.foldl (fun kept hash => kept.erase hash) candidates).insert parent
    (ownEntry parent)) (insert parent set) := by
  intro hash entry
  rw [isMaximal_insert (fun first second => first.trans second)
    (fun _ => topo.irrefl) (dominated topo set), insert_ite, lookup_eraseEach]
  by_cases link : hash = parent
  · rw [if_pos link, Option.some.injEq, link]
    constructor
    · rintro rfl
      exact ⟨.inl ⟨rfl, notBefore⟩, rfl⟩
    · exact fun both => both.2.symm
  · rw [if_neg link]
    by_cases isGone : hash ∈ toRemove
    · rw [if_pos isGone]
      refine ⟨nofun, ?_⟩
      rintro ⟨⟨same, -⟩ | ⟨-, maximal, notPast⟩, -⟩
      · exact absurd same link
      · rcases (gone hash maximal).mp isGone with same | past
        · exact absurd same link
        · exact absurd past notPast
    · rw [if_neg isGone, represents hash entry]
      refine and_congr_left fun _ => ?_
      constructor
      · intro maximal
        refine .inr ⟨link, maximal, fun past => ?_⟩
        exact isGone ((gone hash maximal).mpr (.inr past))
      · rintro (⟨same, -⟩ | ⟨-, maximal, -⟩)
        · exact absurd same link
        · exact maximal

theorem insert_union_rest (parent : DomainHash) (rest : List DomainHash) :
    insert parent set ∪ { hash | hash ∈ rest } = set ∪ { hash | hash ∈ parent :: rest } := by
  ext hash
  simp only [Set.mem_union, Set.mem_insert_iff, Set.mem_ofPred_eq, mem_cons]
  tauto

section

variable (unpruned : Unpruned bpb dag) (rooted : FromGenesis bpb.genesisHash dag)
  {children : List (DomainHash × BlockHeader)} (areChildren : children.map Prod.fst =
    bpb.virtualGenesisChildren.filter fun child => !isVirtualMarker child)

include unpruned rooted areChildren

/-- On a level that has candidates, a parent is compared with them. -/
theorem considerParent_ok (order : RangeOrder) (level ranges : Nat)
    (represents : Represents dag candidates set) (areNodes : ∀ hash ∈ set, hash ∈ nodes dag)
    {parent : DomainHash} (isNode : parent ∈ nodes dag) : ∃ after,
    considerParent bpb order children false level (candidates, ranges) parent = .ok after ∧
    Represents dag after.1 (insert parent set) := by
  have topo := rooted.topological
  generalize isItems : order.order ranges candidates.entries = items
  have memItems : ∀ item : Candidate, item ∈ items ↔
      IsMaximal (InPast dag) set item.1 ∧ item.2 = ownEntry item.1 := by
    intro item
    rw [← isItems, (order.perm ranges candidates.entries).mem_iff,
      mem_entries, represents item.1 item.2]
  have memHashes : ∀ hash, hash ∈ items.map fst ↔ IsMaximal (InPast dag) set hash := by
    intro hash
    rw [mem_map]
    constructor
    · rintro ⟨item, isIn, rfl⟩
      exact ((memItems item).mp isIn).1
    · intro maximal
      exact ⟨⟨hash, ownEntry hash⟩, (memItems _).mpr ⟨maximal, rfl⟩, rfl⟩
  have hashNodes : ∀ hash ∈ items.map fst, hash ∈ nodes dag :=
    fun hash isIn => areNodes hash ((memHashes hash).mp isIn).1
  have compared := compareCandidates_ok unpruned isNode
    (fun item isIn => ((memItems item).mp isIn).2)
    fun item isIn => areNodes item.1 ((memItems item).mp isIn).1.1
  have isAncestorIff := isAncestorOfAny_iff topo isNode hashNodes
  have removedIff : ∀ hash, IsMaximal (InPast dag) set hash →
      (hash ∈ (comparison dag parent (items.map fst)).toRemove ↔ hash = parent ∨
      InPast dag hash parent) := by
    intro hash maximal
    rw [mem_toRemove topo isNode, memHashes]
    exact and_iff_right maximal
  have areCandidates : ∀ hash ∈ (comparison dag parent (items.map fst)).toRemove,
      IsMaximal (InPast dag) set hash := by
    intro hash isGone
    rw [mem_toRemove topo isNode, memHashes] at isGone
    exact isGone.1
  generalize comparison dag parent (items.map fst) = found
    at compared isAncestorIff removedIff areCandidates
  have notMarker : ¬ isVirtualMarker parent = true := by
    rw [rooted.notMarker parent isNode]
    exact Bool.false_ne_true
  rw [considerParent]
  rw [if_neg notMarker, ok_bind (isInFutureOfChildren_ok unpruned
    rooted areChildren isNode), isItems, ok_bind compared]
  by_cases isAdded : !found.isAncestorOfAnyCandidate ∨ found.toRemove.length > 0
  · rw [if_pos isAdded]
    refine ⟨_, rfl, represents.of_new topo ?_ removedIff⟩
    intro top isTop past
    rcases isAdded with notBefore | isAfter
    · rw [isAncestorIff.mpr ⟨top, (memHashes top).mpr isTop, past⟩] at notBefore
      exact Bool.false_ne_true notBefore
    rcases exists_mem_of_length_pos isAfter with ⟨hash, isGone⟩
    have maximal := areCandidates hash isGone
    rcases (removedIff hash maximal).mp isGone with same | before
    · exact maximal.not_before isTop (same ▸ past)
    · exact maximal.not_before isTop (before.trans past)
  · rw [if_neg isAdded]
    rw [not_or, Bool.not_eq_true', Bool.not_eq_false, not_lt,
      Nat.le_zero, length_eq_zero_iff] at isAdded
    rcases isAncestorIff.mp isAdded.1 with ⟨top, isIn, past⟩
    refine ⟨_, rfl, ?_⟩
    rw [isAdded.2]
    exact represents.of_before topo ((memHashes top).mp isIn) past

variable {listed : List DomainHash}

variable (order : RangeOrder)

theorem considerParents_ok (level ranges : Nat) (represents : Represents dag candidates set)
    (areNodes : ∀ hash ∈ set, hash ∈ nodes dag) (listedNodes : ∀ hash ∈ listed, hash ∈ nodes dag) :
    ∃ after, listed.foldlM (considerParent bpb order children false level) (candidates, ranges) =
    .ok after ∧ Represents dag after.1 (set ∪ { hash | hash ∈ listed }) := by
  induction listed generalizing candidates ranges set with
  | nil =>
    refine ⟨_, rfl, ?_⟩
    simpa using represents
  | cons parent rest ih =>
    have isNode := listedNodes parent ((.head _) ..)
    have nextNodes : ∀ hash ∈ insert parent set, hash ∈ nodes dag := by
      rintro hash (rfl | isIn)
      · exact isNode
      · exact areNodes hash isIn
    rcases considerParent_ok unpruned rooted areChildren order level
      ranges represents areNodes isNode with ⟨next, isNext, nextRepresents⟩
    rcases ih next.2 nextRepresents nextNodes fun hash isIn => listedNodes hash (.tail _ isIn)
      with ⟨after, isAfter, afterRepresents⟩
    refine ⟨after, ?_, ?_⟩
    · rw [foldlM_cons, ok_bind isNext]
      exact isAfter
    · rwa [insert_union_rest] at afterRepresents

/-- On a level that has no candidates, every parent becomes one. -/
theorem firstParents_ok (level ranges : Nat) (lists : Lists candidates set)
    (listedNodes : ∀ hash ∈ listed, hash ∈ nodes dag) : ∃ after,
    listed.foldlM (considerParent bpb order children true level) (candidates, ranges) = .ok after ∧
    Lists after.1 (set ∪ { hash | hash ∈ listed }) := by
  induction listed generalizing candidates set with
  | nil =>
    refine ⟨_, rfl, ?_⟩
    simpa using lists
  | cons parent rest ih =>
    have isNode := listedNodes parent ((.head _) ..)
    have notMarker : ¬ isVirtualMarker parent = true := by
      rw [rooted.notMarker parent isNode]
      exact Bool.false_ne_true
    have isNext : considerParent bpb order children true level (candidates, ranges) parent =
        .ok (candidates.insert parent (ownEntry parent), ranges) := by
      rw [considerParent]
      rw [if_neg notMarker, ok_bind (isInFutureOfChildren_ok unpruned rooted areChildren isNode)]
      rfl
    rcases ih (lists.insert parent) fun hash isIn => listedNodes hash (.tail _ isIn)
      with ⟨after, isAfter, afterLists⟩
    refine ⟨after, ?_, ?_⟩
    · rw [foldlM_cons, ok_bind isNext]
      exact isAfter
    · rwa [insert_union_rest] at afterLists

/-! ## All levels -/

/-- A header's parents on a level are taken for this level only. -/
theorem considerLevel_ok {state : Building} {level : Nat}
    (represents : RepresentsAt dag (state.candidatesByLevel level) set)
    (areNodes : ∀ hash ∈ set, hash ∈ nodes dag) (listedNodes : ∀ hash ∈ listed, hash ∈ nodes dag)
    (apart : Unrelated dag { hash | hash ∈ listed }) : ∃ after after',
    considerLevel bpb order children state (level, listed) = .ok after ∧ after.candidatesByLevel =
    Function.update state.candidatesByLevel level (some after') ∧
    Represents dag after' (set ∪ { hash | hash ∈ listed }) := by
  rw [considerLevel]
  cases isLevel : state.candidatesByLevel level with
  | none =>
    rw [isLevel] at represents
    have empty : set = ∅ := represents
    rcases firstParents_ok unpruned rooted areChildren order level
      state.ranges lists_empty listedNodes with ⟨after, isAfter, lists⟩
    refine ⟨_, after.1, ok_bind isAfter _, rfl, ?_⟩
    rw [empty]
    rw [Set.empty_union] at lists ⊢
    exact lists.represents apart
  | some candidates =>
    rw [isLevel] at represents
    rcases considerParents_ok unpruned rooted areChildren order level
      state.ranges represents areNodes listedNodes with ⟨after, isAfter, afterRepresents⟩
    exact ⟨_, after.1, ok_bind isAfter _, rfl, afterRepresents⟩

end

end

end Htnd.BlockParents.Candidates
