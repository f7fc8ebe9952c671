import Htnd.BlockParents.Levels

/-!
# Graphs whose headers were all built

A graph grows from the genesis; the header of each new block is what the builder
gives for its direct parents, which are unrelated.  By induction over the
growth, every header lists the maximal blocks of each level of its past.
-/

namespace Htnd.BlockParents.BuiltHeaders

open Lib.BlockDag Lib.Fallible Lib.Frontier Lib.RangeLoops Utxo.Entry Builder
open Candidates Levels List

/-! ## Reading a header -/

section

variable {pm : ParentsManager} {parents : List BlockLevelParents} {powBitLen level : Nat}

theorem parentsAtLevel_of_missing (isMissing : parents.getD level [] = [])
    (hasParents : parents.getD 0 [] ≠ []) :
    parentsAtLevel pm ⟨parents, powBitLen⟩ level = [pm.genesisHash] := by
  rw [parentsAtLevel, if_pos]
  refine ⟨length_eq_zero_iff.mpr isMissing, ?_⟩
  cases parents with
  | nil | cons => exact length_pos_iff.mpr hasParents

end

/-! ## The candidates of all levels -/

section

variable {bpb : BlockParentBuilder} {dag : Dag DomainHash}

/-- The candidates of each level, when all direct parents have been read. -/
structure Gathered (bpb : BlockParentBuilder) (dag : Dag DomainHash)
    (directParents : List DomainHash) (building : Building)
    (candidates : Nat → CandidateMap) : Prop where
  started : ∀ level ≤ bpb.maxBlockLevel, building.candidatesByLevel level = some (candidates level)
  represents : ∀ level ≤ bpb.maxBlockLevel, Represents dag (candidates level)
    (levelSet bpb.toParentsManager bpb.blockHeaderStore (pastOf dag directParents) level)

section

variable {directParents : List DomainHash} {building : Building} {candidates : Nat → CandidateMap}
  (gathered : Gathered bpb dag directParents building candidates)

include gathered

theorem Gathered.mem_levelBlocks (order : RangeOrder) {level : Nat}
    (inRange : level ≤ bpb.maxBlockLevel) {hash : DomainHash} :
    hash ∈ levelBlocks order building level (candidates level) ↔ IsMaximal (InPast dag)
    (levelSet bpb.toParentsManager bpb.blockHeaderStore (pastOf dag directParents) level) hash := by
  have represents := gathered.represents level inRange
  rw [levelBlocks, mem_map]
  constructor
  · rintro ⟨item, isIn, rfl⟩
    rw [(order.perm _ _).mem_iff, mem_entries, represents item.1 item.2] at isIn
    rw [isIn.2]
    exact isIn.1
  · intro maximal
    refine ⟨⟨hash, ownEntry hash⟩, ?_, rfl⟩
    rw [(order.perm _ _).mem_iff, mem_entries]
    exact (represents hash _).mpr ⟨maximal, rfl⟩

/-- A level that holds the genesis alone has no other block. -/
theorem Gathered.eq_genesis (rooted : FromGenesis bpb.genesisHash dag) {level : Nat}
    (inRange : level ≤ bpb.maxBlockLevel) (only : GenesisOnly bpb.toParentsManager building level)
    {block : DomainHash} (isIn : block ∈ levelSet bpb.toParentsManager bpb.blockHeaderStore
    (pastOf dag directParents) level) : block = bpb.genesisHash := by
  rcases dominated rooted.topological _ block isIn with ⟨hash, maximal, descends⟩
  suffices isGenesis : hash = bpb.genesisHash by
    rw [isGenesis] at descends
    exact descends.resolve_right rooted.not_before
  rcases only with ⟨-, _, isFound, hasGenesis, isOne⟩
  rw [gathered.started level inRange, Option.some.injEq] at isFound
  rw [← isFound] at hasGenesis isOne
  rcases length_eq_one_iff.mp isOne with ⟨item, isItem⟩
  have isKey : ∀ other, other ∈ candidates level → other = item.1 := by
    intro other isIn
    rw [AList.mem_keys, AList.keys, isItem] at isIn
    simpa using isIn
  have isCandidate : hash ∈ candidates level := by
    rw [← AList.lookup_isSome, (gathered.represents level inRange hash _).mpr ⟨maximal, rfl⟩]
    rfl
  exact (isKey hash isCandidate).trans (isKey bpb.genesisHash hasGenesis).symm

end

variable {directParents : List DomainHash} (unpruned : Unpruned bpb dag)
  (headed : Headed bpb.toParentsManager dag bpb.blockHeaderStore)
  (order : RangeOrder) (known : ∀ hash ∈ directParents, hash ∈ nodes dag)
  (apart : Unrelated dag { hash | hash ∈ directParents })

include unpruned headed known apart in
theorem gather_ok {pairs children : List (DomainHash × BlockHeader)}
    (isPaired : ∀ hash, hash ∈ pairs.map Prod.fst ↔ hash ∈ directParents)
    (areStored : ∀ pair ∈ pairs, bpb.blockHeaderStore.lookup pair.1 = some pair.2)
    (areChildren : children.map Prod.fst = bpb.virtualGenesisChildren.filter fun child =>
    !isVirtualMarker child) (notEmpty : directParents ≠ []) : ∃ building candidates,
    (pairs.map Prod.snd).foldlM (considerHeader bpb order children)
    ⟨pairs.foldl (addDirectParent bpb) fun _ => none, 0⟩ = .ok building ∧
    Gathered bpb dag directParents building candidates := by
  have link : ∀ pair ∈ pairs, pair.1 ∈ directParents := fun pair isIn =>
    (isPaired pair.1).mp (mem_map_of_mem isIn)
  have atStart : ∀ level ≤ bpb.maxBlockLevel, RepresentsAt dag
      (pairs.foldl (addDirectParent bpb) (fun _ => none) level)
      { hash | ∃ pair ∈ pairs, hash = pair.1 ∧ level ≤ pair.2.blockLevel bpb.maxBlockLevel } := by
    intro level _
    have lists := @ListsAt.addDirectParents ∅ bpb (fun _ => none) level rfl pairs
    rw [Set.empty_union] at lists
    refine lists.representsAt ?_
    rintro _ ⟨first, isFirst, rfl, -⟩ _ ⟨second, isSecond, rfl, -⟩
    exact apart _ (link first isFirst) _ (link second isSecond)
  have areNodes : ∀ level, ∀ hash ∈ { hash | ∃ pair ∈ pairs, hash = pair.1 ∧
      level ≤ pair.2.blockLevel bpb.maxBlockLevel }, hash ∈ nodes dag := by
    rintro level _ ⟨pair, isIn, rfl, -⟩
    exact known _ (link pair isIn)
  have orderly : ∀ header ∈ pairs.map Prod.snd, Orderly bpb.toParentsManager dag header := by
    intro header isHeader
    rcases mem_map.mp isHeader with ⟨pair, isIn, rfl⟩
    exact headed.orderly (known _ (link pair isIn)) (areStored pair isIn)
  rcases considerHeaders_ok unpruned headed.fromGenesis areChildren order
    orderly _ areNodes ⟨_, 0⟩ atStart with ⟨building, isBuilding, represents, started⟩
  have hasHeaders : pairs.map Prod.snd ≠ [] := by
    intro empty
    rcases exists_mem_of_ne_nil directParents notEmpty with ⟨hash, isIn⟩
    rw [← isPaired, map_eq_nil_iff.mp empty] at isIn
    cases isIn
  refine ⟨building, fun level => (building.candidatesByLevel level).getD ∅,
    isBuilding, fun level inRange => ?_, fun level inRange => ?_⟩
  · rcases Option.isSome_iff_exists.mp (started hasHeaders level inRange) with ⟨candidates, isSome⟩
    rw [isSome, Option.getD_some]
  · rcases Option.isSome_iff_exists.mp (started hasHeaders level inRange) with ⟨candidates, isSome⟩
    have known' := represents level inRange
    rw [isSome] at known' ⊢
    intro hash entry
    rw [← isMaximal_taken headed known isPaired areStored inRange]
    exact known' hash entry

include headed known in
/-- The levels collected are the maximal blocks of each level. -/
theorem mem_parentsAtLevel_collected (notEmpty : directParents ≠ []) {building : Building}
    {candidates : Nat → CandidateMap} (gathered :
    Gathered bpb dag directParents building candidates) (powBitLen level : Nat)
    {hash : DomainHash} : hash ∈ parentsAtLevel bpb.toParentsManager
    ⟨collectLevels bpb order building (List.range (bpb.maxBlockLevel + 1)), powBitLen⟩ level ↔
    IsMaximal (InPast dag) (levelSet bpb.toParentsManager bpb.blockHeaderStore
    (pastOf dag directParents) level) hash := by
  have rooted := headed.fromGenesis
  rcases exists_mem_of_ne_nil directParents notEmpty with ⟨parent, link⟩
  have hasGenesis : ∀ level, bpb.genesisHash ∈ levelSet bpb.toParentsManager
      bpb.blockHeaderStore (pastOf dag directParents) level := fun _ =>
    ⟨⟨parent, link, rooted.descends parent (known parent link)⟩, .inl rfl⟩
  have blocksNotEmpty : ∀ level ≤ bpb.maxBlockLevel,
      levelBlocks order building level (candidates level) ≠ [] := by
    intro level inRange empty
    rcases dominated rooted.topological _ _ (hasGenesis level) with ⟨_, isTop, -⟩
    rw [← gathered.mem_levelBlocks order inRange, empty] at isTop
    cases isTop
  have started : ∀ level, 0 ≤ level → level < 0 + (bpb.maxBlockLevel + 1) →
      building.candidatesByLevel level = some (candidates level) ∧
      (candidates level).entries ≠ [] := by
    intro level _ inRange
    refine ⟨gathered.started level (by omega), fun empty => ?_⟩
    have noBlocks := blocksNotEmpty level (by omega)
    rw [levelBlocks, empty, perm_nil.mp (order.perm (building.ranges + level) [])] at noBlocks
    exact noBlocks rfl
  rw [range_eq_range']
  have atZero : (collectLevels bpb order building (List.range' 0
      (bpb.maxBlockLevel + 1))).getD 0 [] ≠ [] := by
    rw [getD_collectLevels order started (Nat.succ_pos _)]
    · exact blocksNotEmpty _ (Nat.zero_le _)
    · intro level _ _ only
      exact absurd only.1 (by omega)
  by_cases isOnly : bpb.maxBlockLevel + 1 ≤ level ∨ ∃ other, 0 ≤ other ∧
      other ≤ 0 + level ∧ GenesisOnly bpb.toParentsManager building other
  · rw [parentsAtLevel_of_missing (getD_collectLevels_of_genesis order isOnly
      fun level above below => ⟨_, started level above below⟩) atZero, mem_singleton]
    have isGenesis : ∀ block ∈ levelSet bpb.toParentsManager
        bpb.blockHeaderStore (pastOf dag directParents) level, block = bpb.genesisHash := by
      intro block isIn
      by_cases inRange : level ≤ bpb.maxBlockLevel
      · rcases isOnly with _ | ⟨other, -, below, only⟩
        · omega
        · refine gathered.eq_genesis rooted (by omega) only ⟨isIn.1, isIn.2.imp id ?_⟩
          rintro ⟨header, isHeader, occupies⟩
          exact ⟨header, isHeader, by omega⟩
      rcases isIn.2 with isGenesis | ⟨header, -, below⟩
      · exact isGenesis
      have notAbove : header.blockLevel bpb.maxBlockLevel ≤
          bpb.maxBlockLevel := by
        rw [BlockHeader.blockLevel]
        split_ifs
        · exact le_rfl
        · exact Nat.sub_le _ _
      omega
    constructor
    · rintro rfl
      refine ⟨hasGenesis level, fun block isIn past => ?_⟩
      rw [isGenesis block isIn] at past
      exact rooted.topological.irrefl past
    · exact fun maximal => isGenesis hash maximal.1
  · rw [not_or] at isOnly
    have inRange : level ≤ bpb.maxBlockLevel := by omega
    have listed := getD_collectLevels order started
      (Nat.lt_succ_of_le inRange) fun other above below only => isOnly.2 ⟨other, above, below, only⟩
    rw [zero_add] at listed
    have hasBlocks := blocksNotEmpty level inRange
    rw [← listed] at hasBlocks
    rw [parentsAtLevel, if_neg fun missing => hasBlocks (length_eq_zero_iff.mp missing.1), listed]
    exact gathered.mem_levelBlocks order inRange

theorem isSome_findIdx?_iff (topo : Topological dag) {blocks : List DomainHash}
    (known : ∀ hash ∈ blocks, hash ∈ nodes dag) {upper : DomainHash} :
    (blocks.findIdx? (isAncestor dag upper)).isSome ↔ ∃ hash ∈ blocks, upper = hash ∨
    InPast dag upper hash := by
  rw [List.findIdx?_isSome, any_eq_true]
  exact exists_congr fun hash => and_congr_right fun isIn => topo.isAncestor_iff (known hash isIn)

include unpruned headed known apart in
theorem buildParents_ok (inFuture : ∃ hash ∈ directParents, bpb.pruningPoint = hash ∨
      InPast dag bpb.pruningPoint hash) : ∃ parents, buildParents bpb order directParents =
      .ok parents ∧ ∀ powBitLen level hash, hash ∈ parentsAtLevel bpb.toParentsManager
      ⟨parents, powBitLen⟩ level ↔ IsMaximal (InPast dag)
      (levelSet bpb.toParentsManager bpb.blockHeaderStore (pastOf dag directParents) level)
      hash := by
  have notEmpty : directParents ≠ [] := by
    rintro rfl
    rcases inFuture with ⟨hash, isIn, -⟩
    cases isIn
  rcases Option.isSome_iff_exists.mp ((isSome_findIdx?_iff
    headed.fromGenesis.topological known).mpr inFuture) with ⟨index, isFound⟩
  have first := firstParentInFuture_eq unpruned known
  rw [isFound] at first
  have storedOf : ∀ hash ∈ nodes dag, ∃ header, bpb.blockHeaderStore.lookup hash = some header :=
    fun hash isNode => (headed.stored hash isNode).imp fun _ => And.left
  rcases withHeaders_ok fun hash isIn => storedOf hash
    (known hash ((@mem_swapFirst _ index hash).mp isIn)) with ⟨pairs, isPairs, keys, areStored⟩
  have childNodes : ∀ hash ∈ bpb.virtualGenesisChildren.filter
      (fun child => !isVirtualMarker child), hash ∈ nodes dag := by
    intro hash isIn
    rw [mem_filter] at isIn
    exact unpruned.children hash isIn.1 (by simpa using isIn.2)
  rcases withHeaders_ok fun hash isIn => storedOf hash (childNodes hash isIn)
    with ⟨children, isChildren, areChildren, -⟩
  have isPaired : ∀ hash, hash ∈ pairs.map Prod.fst ↔ hash ∈ directParents := by
    intro hash
    rw [keys, mem_swapFirst]
  rcases gather_ok unpruned headed order known apart isPaired areStored
    areChildren notEmpty with ⟨_, _, isBuilding, gathered⟩
  refine ⟨_, ?_, fun powBitLen level hash => mem_parentsAtLevel_collected
    headed order known notEmpty gathered powBitLen level⟩
  rw [buildParents, ok_bind first]
  dsimp only
  rw [ok_bind isPairs, ok_bind isChildren, ok_bind isBuilding]
  rfl

end

/-! ## Growing a graph -/

/--
A graph with the headers of its blocks, grown from the genesis.  Each header is
what the builder gave at the time for the block's direct parents, which are
unrelated; its proof of work is arbitrary.
-/
inductive Built (pm : ParentsManager) :
    Dag DomainHash → FiniteMap DomainHash BlockHeader → Prop where
  | genesis (powBitLen : Nat) (notMarker : isVirtualMarker pm.genesisHash = false) :
      Built pm [(pm.genesisHash, [])] (AList.insert pm.genesisHash ⟨[], powBitLen⟩ ∅)
  | block {dag : Dag DomainHash} {bpb : BlockParentBuilder} {node : DomainHash}
      {directParents : List DomainHash} {parents : List BlockLevelParents}
      (built : Built pm dag bpb.blockHeaderStore) (isManager : bpb.toParentsManager = pm)
      (unpruned : Unpruned bpb dag) (order : RangeOrder) (fresh : node ∉ nodes dag)
      (notMarker : isVirtualMarker node = false) (known : ∀ hash ∈ directParents, hash ∈ nodes dag)
      (unrelated : Unrelated dag { hash | hash ∈ directParents })
      (isBuilt : buildParents bpb order directParents = .ok parents) (powBitLen : Nat) :
      Built pm ((node, directParents) :: dag)
      (bpb.blockHeaderStore.insert node ⟨parents, powBitLen⟩)

section

variable {pm : ParentsManager} {dag : Dag DomainHash} {store : FiniteMap DomainHash BlockHeader}

variable {directParents : List DomainHash}

/-- What is maximal on a level of an old past does not depend on a new block. -/
theorem isMaximal_grown {node : DomainHash} {header : BlockHeader} (topo : Topological dag)
    (fresh : node ∉ nodes dag) {past : Set DomainHash} (areOld : ∀ block ∈ past, block ∈ nodes dag)
    {level : Nat} {hash : DomainHash} : IsMaximal (InPast ((node, directParents) :: dag))
    (levelSet pm (store.insert node header) past level) hash ↔ IsMaximal (InPast dag)
    (levelSet pm store past level) hash := by
  have same : levelSet pm (store.insert node header) past level = levelSet pm store past level := by
    ext block
    refine and_congr_right fun isIn => or_congr_right ?_
    have differs : block ≠ node := by
      rintro rfl
      exact fresh (areOld block isIn)
    rw [insert_ite, if_neg differs]
  rw [same]
  refine and_congr_right fun _ => forall₂_congr fun other isIn => ?_
  rw [topo.inPast_old fresh (areOld other isIn.1)]

theorem headed_genesis (powBitLen : Nat) (notMarker : isVirtualMarker pm.genesisHash = false) :
    Headed pm [(pm.genesisHash, [])] (AList.insert pm.genesisHash ⟨[], powBitLen⟩ ∅) := by
  have topo : Topological [(pm.genesisHash, ([] : List DomainHash))] := .cons .nil not_mem_nil nofun
  have isGenesis : ∀ block ∈ nodes
      [(pm.genesisHash, ([] : List DomainHash))], block = pm.genesisHash := by
    intro block isIn
    rw [mem_nodes] at isIn
    exact isIn.resolve_right not_mem_nil
  have rooted : FromGenesis pm.genesisHash
      [(pm.genesisHash, ([] : List DomainHash))] :=
    { topological := topo
      isNode := mem_nodes.mpr (.inl rfl)
      descends := fun block isIn => .inl (isGenesis block isIn).symm
      notMarker := fun block isIn => by rwa [isGenesis block isIn] }
  refine ⟨rooted, fun block isIn => ⟨⟨[], powBitLen⟩, ?_, ?_⟩⟩
  · rw [isGenesis block isIn]
    exact AList.lookup_insert _
  · intro _ _
    rw [isGenesis block isIn]
    refine ⟨fun listed => absurd listed ?_, fun maximal => absurd maximal.1.1 rooted.not_before⟩
    exact not_mem_nil

/-- A block whose header was built has the header it should have. -/
theorem headed_grow {bpb : BlockParentBuilder} {node : DomainHash}
    {parents : List BlockLevelParents} (headed :
    Headed bpb.toParentsManager dag bpb.blockHeaderStore) (unpruned : Unpruned bpb dag)
    {order : RangeOrder} (fresh : node ∉ nodes dag) (notMarker : isVirtualMarker node = false)
    (known : ∀ hash ∈ directParents, hash ∈ nodes dag)
    (apart : Unrelated dag { hash | hash ∈ directParents })
    (isBuilt : buildParents bpb order directParents = .ok parents) (powBitLen : Nat) :
    Headed bpb.toParentsManager ((node, directParents) :: dag)
    (bpb.blockHeaderStore.insert node ⟨parents, powBitLen⟩) := by
  have topo := headed.fromGenesis.topological
  have inFuture : ∃ hash ∈ directParents,
      bpb.pruningPoint = hash ∨ InPast dag bpb.pruningPoint hash := by
    have built := isBuilt
    rw [buildParents, ok_bind (firstParentInFuture_eq unpruned known)] at built
    rw [← isSome_findIdx?_iff topo known]
    cases isFound : directParents.findIdx? (isAncestor dag bpb.pruningPoint) with
    | none =>
      rw [isFound] at built
      cases built
    | some index => rfl
  have grown : Topological ((node, directParents) :: dag) := .cons topo fresh known
  have pastOld : ∀ {block upper}, block ∈ nodes dag →
      (InPast ((node, directParents) :: dag) upper block ↔ InPast dag upper block) :=
      topo.inPast_old fresh
  have pastNew : ∀ {upper}, InPast ((node, directParents) :: dag) upper node ↔
        upper ∈ pastOf dag directParents := topo.inPast_new fresh known
  have oldOf : ∀ block ∈ pastOf dag directParents, block ∈ nodes dag := by
    rintro block ⟨parent, isIn, rfl | past⟩
    · exact known block isIn
    · exact topo.ancestor_mem past
  refine ⟨⟨grown, ?_, ?_, ?_⟩, ?_⟩
  · exact mem_nodes.mpr (.inr headed.fromGenesis.isNode)
  · intro block isNode
    rcases mem_nodes.mp isNode with rfl | isOld
    · rcases inFuture with ⟨parent, isIn, -⟩
      right
      rw [pastNew]
      exact ⟨parent, isIn, headed.fromGenesis.descends parent (known parent isIn)⟩
    · exact (headed.fromGenesis.descends block isOld).imp id (pastOld isOld).mpr
  · intro block isNode
    rcases mem_nodes.mp isNode with rfl | isOld
    · exact notMarker
    · exact headed.fromGenesis.notMarker block isOld
  · intro block isNode
    rcases mem_nodes.mp isNode with rfl | isOld
    · refine ⟨⟨parents, powBitLen⟩, AList.lookup_insert _, ?_⟩
      rcases buildParents_ok unpruned headed order known apart inFuture with ⟨_, isOthers, lists⟩
      rw [isBuilt, Except.ok.injEq] at isOthers
      subst isOthers
      intro level hash
      have isPast : { upper | InPast ((block, directParents) :: dag) upper block } =
          pastOf dag directParents := by
        ext upper
        exact pastNew
      rw [lists, isPast, isMaximal_grown topo fresh oldOf]
    · rcases headed.stored block isOld with ⟨header, isHeader, lists⟩
      have differs : block ≠ node := by
        rintro rfl
        exact fresh isOld
      refine ⟨header, ?_, ?_⟩
      · rw [insert_ite, if_neg differs, isHeader]
      · intro level hash
        have isPast : { upper | InPast ((node, directParents) :: dag) upper block } =
            { upper | InPast dag upper block } := by
          ext upper
          exact pastOld isOld
        rw [lists, isPast]
        exact (isMaximal_grown topo fresh fun _ => topo.ancestor_mem).symm

theorem Built.headed (built : Built pm dag store) : Headed pm dag store := by
  induction built with
  | genesis powBitLen notMarker => exact headed_genesis powBitLen notMarker
  | block built isManager unpruned order fresh notMarker known apart isBuilt powBitLen ih =>
      subst isManager
      exact headed_grow ih unpruned fresh notMarker known apart isBuilt powBitLen

end

/--
For every new block, the parents built for it list on each level exactly the
maximal blocks of that level in its past, in whatever order the maps are ranged
over.
-/
theorem parentsAtLevel_built {pm : ParentsManager} {dag : Dag DomainHash}
    {bpb : BlockParentBuilder} (built : Built pm dag bpb.blockHeaderStore)
    (isManager : bpb.toParentsManager = pm) (unpruned : Unpruned bpb dag)
    {directParents : List DomainHash} (known : ∀ hash ∈ directParents, hash ∈ nodes dag)
    (unrelated : Unrelated dag { hash | hash ∈ directParents }) (inFuture : ∃ hash ∈ directParents,
      bpb.pruningPoint = hash ∨ InPast dag bpb.pruningPoint hash) (order : RangeOrder) :
    ∃ parents, buildParents bpb order directParents = .ok parents ∧ ∀ powBitLen level hash,
        hash ∈ parentsAtLevel pm ⟨parents, powBitLen⟩ level ↔
          IsMaximal (InPast dag) { block | (∃ parent ∈ directParents,
                block = parent ∨ InPast dag block parent) ∧
              Occupies pm bpb.blockHeaderStore level block } hash := by
  subst isManager
  exact buildParents_ok unpruned built.headed order known unrelated inFuture

/-! ## Three blocks -/

/-- Three levels above the genesis. -/
def threeLevels : ParentsManager := ⟨.filled 1, 2⟩

/-- A builder that is asked about a graph, with the genesis as its root. -/
def builderOf (dag : Dag DomainHash)
    (store : FiniteMap DomainHash BlockHeader) : BlockParentBuilder where
  toParentsManager := threeLevels
  blockHeaderStore := store
  isAncestorOf first second := .ok (isAncestor dag first second)
  hasReachabilityData _ := true
  virtualGenesisChildren := [.filled 1]
  pruningPoint := .filled 1

theorem unpruned_builderOf {dag : Dag DomainHash} {store : FiniteMap DomainHash BlockHeader}
    (hasGenesis : .filled 1 ∈ nodes dag) : Unpruned (builderOf dag store) dag where
  isAncestorOf _ _ _ _ := rfl
  reachable _ _ := rfl
  genesisChild := mem_singleton_self _
  children child isChild _ := by
    rw [mem_singleton.mp isChild]
    exact hasGenesis
  pruningPoint := hasGenesis

/-- Range loops that follow the order of the list. -/
def listOrder : RangeOrder where
  order _ items := items
  perm _ items := List.Perm.refl items

/-- The genesis, and a block of the first level above it. -/
def twoBlocks : Dag DomainHash := [(.filled 2, [.filled 1]), (.filled 1, [])]

def twoHeaders : FiniteMap DomainHash BlockHeader :=
  AList.insert (.filled 2) ⟨[[.filled 1]], 1⟩ (AList.insert (.filled 1) ⟨[], 0⟩ ∅)

/-- Another block over the genesis, of the lowest level. -/
def threeBlocks : Dag DomainHash := (.filled 3, [.filled 1]) :: twoBlocks

def threeHeaders : FiniteMap DomainHash BlockHeader :=
  twoHeaders.insert (.filled 3) ⟨[[.filled 1]], 2⟩

theorem unrelated_of_isAncestor {dag : Dag DomainHash} {hashes : List DomainHash}
    (topo : Topological dag) (known : ∀ hash ∈ hashes, hash ∈ nodes dag)
    (apart : ∀ first ∈ hashes, ∀ second ∈ hashes, isAncestor dag first second = true →
      first = second) : Unrelated dag { hash | hash ∈ hashes } := by
  intro first firstIn second secondIn past
  have same := apart first firstIn second secondIn
    ((topo.isAncestor_iff (known second secondIn)).mpr (.inr past))
  exact topo.irrefl (same ▸ past)

theorem built_threeBlocks : Built threeLevels threeBlocks threeHeaders := by
  have genesis : Built threeLevels [(.filled 1, [])] (builderOf [(.filled 1, [])]
        (AList.insert (.filled 1) ⟨[], 0⟩ ∅)).blockHeaderStore := .genesis 0 (by decide)
  have two : Built threeLevels twoBlocks (builderOf twoBlocks twoHeaders).blockHeaderStore := by
    refine .block genesis rfl (unpruned_builderOf (by decide)) listOrder
      (by decide) (by decide) (by decide) ?_ (of_toOption_eq (by decide +kernel)) 1
    exact unrelated_of_isAncestor genesis.headed.fromGenesis.topological (by decide) (by decide)
  refine .block two rfl (unpruned_builderOf (by decide)) listOrder
    (by decide) (by decide) (by decide) ?_ (of_toOption_eq (by decide +kernel)) 2
  exact unrelated_of_isAncestor two.headed.fromGenesis.topological (by decide) (by decide)

theorem parentsAtLevel_built_threeBlocks : Built threeLevels threeBlocks threeHeaders ∧
      ∃ parents, buildParents (builderOf threeBlocks threeHeaders) listOrder
          [.filled 2, .filled 3] = .ok parents ∧ ∀ powBitLen level hash,
          hash ∈ parentsAtLevel threeLevels ⟨parents, powBitLen⟩ level ↔
            IsMaximal (InPast threeBlocks) { block | (∃ parent ∈ [DomainHash.filled 2, .filled 3],
                  block = parent ∨ InPast threeBlocks block parent) ∧
                Occupies threeLevels threeHeaders level block } hash := by
  have built : Built threeLevels threeBlocks
      (builderOf threeBlocks threeHeaders).blockHeaderStore := built_threeBlocks
  refine ⟨built, parentsAtLevel_built built rfl (unpruned_builderOf (by decide)) ?_ ?_ ?_ listOrder⟩
  · decide
  · exact unrelated_of_isAncestor built.headed.fromGenesis.topological (by decide) (by decide)
  · refine ⟨.filled 2, .head _, .inr ?_⟩
    exact .of_parent ⟨[.filled 1], by decide, .head _⟩

end Htnd.BlockParents.BuiltHeaders
