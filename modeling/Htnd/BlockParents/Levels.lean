import Htnd.BlockParents.Candidates

/-!
# The parents of a block, level by level

In a graph of which nothing is pruned and whose headers were all built by the
block parent builder, the parents of a new block on a level are the maximal
blocks among those of its past that occupy the level.  A header leaves out the
levels on which these are the genesis alone.
-/

namespace Htnd.BlockParents.Levels

open Lib.BlockDag Lib.Fallible Lib.Frontier Lib.RangeLoops Utxo.Entry Builder
open Candidates List Function

section

variable {bpb : BlockParentBuilder} {dag : Dag DomainHash} (unpruned : Unpruned bpb dag)
  (fromGenesis : FromGenesis bpb.genesisHash dag) {children : List (DomainHash × BlockHeader)}
  (areChildren : children.map Prod.fst = bpb.virtualGenesisChildren.filter fun child =>
  !isVirtualMarker child)

/-! ## The headers of the direct parents -/

/-- What a header lists is in the graph, and unrelated on each level. -/
structure Orderly (pm : ParentsManager) (dag : Dag DomainHash) (header : BlockHeader) : Prop where
  areNodes : ∀ level, ∀ hash ∈ parentsAtLevel pm header level, hash ∈ nodes dag
  unrelated : ∀ level, Unrelated dag { hash | hash ∈ parentsAtLevel pm header level }

include unpruned fromGenesis areChildren

theorem considerLevels_ok (order : RangeOrder) {header : BlockHeader}
    (orderly : Orderly bpb.toParentsManager dag header) {sets : Nat → Set DomainHash}
    (areNodes : ∀ level, ∀ hash ∈ sets level, hash ∈ nodes dag) {levels : List Nat}
    (nodup : levels.Nodup) {building : Building}
    (represents : ∀ level ∈ levels, RepresentsAt dag (building.candidatesByLevel level)
    (sets level)) : ∃ after, (levels.map fun level =>
    (level, parentsAtLevel bpb.toParentsManager header level)).foldlM
    (considerLevel bpb order children) building = .ok after ∧
    (∀ level ∈ levels, ∃ table, after.candidatesByLevel level = some table ∧
    Represents dag table (sets level ∪ { hash | hash ∈ parentsAtLevel bpb.toParentsManager header
    level })) ∧ ∀ level ∉ levels, after.candidatesByLevel level = building.candidatesByLevel
    level := by
  induction levels generalizing building with
  | nil => exact ⟨building, rfl, nofun, fun _ _ => rfl⟩
  | cons level rest ih =>
    rw [nodup_cons] at nodup
    rcases considerLevel_ok unpruned fromGenesis areChildren order (represents level ((.head _) ..))
      (areNodes level) (orderly.areNodes level) (orderly.unrelated level) with ⟨next, table, isNext,
      isUpdate, nextRepresents⟩
    have others : ∀ other, other ≠ level → next.candidatesByLevel other =
          building.candidatesByLevel other := by
      intro other differs
      rw [isUpdate, update_of_ne differs]
    rcases @ih nodup.2 next fun other isIn => by
        have differs : other ≠ level := by
          rintro rfl
          exact nodup.1 isIn
        rw [others other differs]
        exact represents other (.tail _ isIn)
      with ⟨after, isAfter, inRest, beyond⟩
    refine ⟨after, ?_, ?_, ?_⟩
    · rw [map_cons, foldlM_cons, ok_bind isNext]
      exact isAfter
    · intro other isIn
      rcases mem_cons.mp isIn with rfl | isIn
      · refine ⟨table, ?_, nextRepresents⟩
        rw [beyond other nodup.1, isUpdate, update_self]
      · exact inRest other isIn
    · intro other notIn
      rw [mem_cons, not_or] at notIn
      rw [beyond other notIn.2, others other notIn.1]

theorem considerHeaders_ok (order : RangeOrder) {headers : List BlockHeader}
    (orderly : ∀ header ∈ headers, Orderly bpb.toParentsManager dag header)
    (sets : Nat → Set DomainHash) (areNodes : ∀ level, ∀ hash ∈ sets level, hash ∈ nodes dag)
    (building : Building) (represents : ∀ level ≤ bpb.maxBlockLevel,
    RepresentsAt dag (building.candidatesByLevel level) (sets level)) : ∃ after,
    headers.foldlM (considerHeader bpb order children) building = .ok after ∧
    (∀ level ≤ bpb.maxBlockLevel, RepresentsAt dag (after.candidatesByLevel level)
    (sets level ∪ { hash | ∃ header ∈ headers, hash ∈ parentsAtLevel bpb.toParentsManager header
    level })) ∧ (headers ≠ [] → ∀ level ≤ bpb.maxBlockLevel,
    (after.candidatesByLevel level).isSome) := by
  induction headers generalizing sets building with
  | nil =>
    refine ⟨building, rfl, fun level inRange => ?_, fun empty => absurd rfl empty⟩
    simpa using represents level inRange
  | cons header rest ih =>
    have isOrderly := orderly header ((.head _) ..)
    rcases considerLevels_ok unpruned fromGenesis areChildren order isOrderly areNodes nodup_range
      (fun level isIn => represents level (Nat.le_of_lt_succ (mem_range.mp isIn)))
      with ⟨next, isNext, nextLevels, -⟩
    have inNext : ∀ level ≤ bpb.maxBlockLevel, ∃ table,
        next.candidatesByLevel level = some table ∧
        Represents dag table (sets level ∪ { hash | hash ∈
          parentsAtLevel bpb.toParentsManager header level }) :=
      fun level inRange =>
        nextLevels level (mem_range.mpr (Nat.lt_succ_of_le inRange))
    have nextNodes : ∀ level, ∀ hash ∈ sets level ∪ { hash | hash ∈
        parentsAtLevel bpb.toParentsManager header level }, hash ∈ nodes dag := by
      rintro level hash (isOld | listed)
      · exact areNodes level hash isOld
      · exact isOrderly.areNodes level hash listed
    have nextRepresents : ∀ level ≤ bpb.maxBlockLevel,
        RepresentsAt dag (next.candidatesByLevel level)
        (sets level ∪ { hash | hash ∈ parentsAtLevel bpb.toParentsManager header level }) := by
      intro level inRange
      rcases inNext level inRange with ⟨table, isSome, known⟩
      rw [isSome]
      exact known
    rcases ih (fun other isIn => orderly other (.tail _ isIn))
      _ nextNodes next nextRepresents
      with ⟨after, isAfter, afterLevels, started⟩
    refine ⟨after, ?_, fun level inRange => ?_, fun _ level inRange => ?_⟩
    · exact (ok_bind isNext _).trans isAfter
    · have isUnion : sets level ∪ { hash | hash ∈ parentsAtLevel bpb.toParentsManager header level }
            ∪ { hash | ∃ header ∈ rest, hash ∈ parentsAtLevel bpb.toParentsManager header level } =
            sets level ∪ { hash | ∃ other ∈ header :: rest,
            hash ∈ parentsAtLevel bpb.toParentsManager other level } := by
        ext hash
        simp only [Set.mem_union, Set.mem_ofPred_eq, exists_mem_cons_iff, or_assoc]
      have known := afterLevels level inRange
      rwa [isUnion] at known
    · cases rest with
      | nil =>
        cases isAfter
        rcases inNext level inRange with ⟨table, isSome, -⟩
        rw [isSome]
        rfl
      | cons second others => exact started (cons_ne_nil _ _) level inRange

end

/-! ## The direct parents -/

section

variable {bpb : BlockParentBuilder}

/-- The candidates of a level that may not have been started. -/
def ListsAt (candidates : Option CandidateMap) (set : Set DomainHash) : Prop :=
  match candidates with
  | none => set = ∅
  | some candidates => Lists candidates set

theorem addAtLevels_at (hash : DomainHash) (byLevel : Nat → Option CandidateMap)
    (number level : Nat) : (List.range number).foldl (addAtLevel hash) byLevel level =
      if level < number then
        some (((byLevel level).getD ∅).insert hash (ownEntry hash)) else byLevel level := by
  induction number with
  | zero => rfl
  | succ number ih =>
    rw [range_succ, foldl_append, foldl_cons, foldl_nil, addAtLevel]
    by_cases last : level = number
    · subst last
      rw [update_self, if_pos (Nat.lt_succ_self level), ih, if_neg (lt_irrefl level)]
    · rw [update_of_ne last, ih]
      refine if_congr ?_ rfl rfl
      omega

variable {set : Set DomainHash} {building : Building}

theorem ListsAt.addDirectParent (bpb : BlockParentBuilder) {byLevel : Nat → Option CandidateMap}
    {level : Nat} (lists : ListsAt (byLevel level) set) (parent : DomainHash × BlockHeader) :
    ListsAt (Builder.addDirectParent bpb byLevel parent level)
    (set ∪ { hash | hash = parent.1 ∧ level ≤ parent.2.blockLevel bpb.maxBlockLevel }) := by
  rw [Builder.addDirectParent, addAtLevels_at]
  by_cases occupies : level ≤ parent.2.blockLevel bpb.maxBlockLevel
  · rw [if_pos (Nat.lt_succ_of_le occupies)]
    have isInsert : set ∪ { hash | hash = parent.1 ∧
        level ≤ parent.2.blockLevel bpb.maxBlockLevel } = insert parent.1 set := by
      simp [occupies]
    rw [isInsert]
    cases isLevel : byLevel level with
    | none =>
      rw [isLevel] at lists
      have empty : set = ∅ := lists
      rw [empty]
      exact lists_empty.insert parent.1
    | some table =>
      rw [isLevel] at lists
      exact Lists.insert lists parent.1
  · rw [if_neg (by omega)]
    have isSame : set ∪ { hash | hash = parent.1 ∧
        level ≤ parent.2.blockLevel bpb.maxBlockLevel } = set := by
      simp [occupies]
    rwa [isSame]

theorem ListsAt.addDirectParents (bpb : BlockParentBuilder) {byLevel : Nat → Option CandidateMap}
    {level : Nat} (lists : ListsAt (byLevel level) set)
    (directParents : List (DomainHash × BlockHeader)) :
    ListsAt (directParents.foldl (Builder.addDirectParent bpb) byLevel level)
    (set ∪ { hash | ∃ parent ∈ directParents, hash = parent.1 ∧
    level ≤ parent.2.blockLevel bpb.maxBlockLevel }) := by
  induction directParents generalizing byLevel set with
  | nil => simpa using lists
  | cons first rest ih =>
    have after := ih (lists.addDirectParent bpb first)
    have isUnion : set ∪ { hash | hash = first.1 ∧ level ≤ first.2.blockLevel bpb.maxBlockLevel } ∪
          { hash | ∃ parent ∈ rest, hash = parent.1 ∧ level ≤ parent.2.blockLevel bpb.maxBlockLevel
          } = set ∪ { hash | ∃ parent ∈ first :: rest, hash = parent.1 ∧
          level ≤ parent.2.blockLevel bpb.maxBlockLevel } := by
      ext hash
      simp only [Set.mem_union, Set.mem_ofPred_eq, exists_mem_cons_iff, or_assoc]
    rwa [isUnion] at after

theorem ListsAt.representsAt {dag : Dag DomainHash} {table : Option CandidateMap}
    (lists : ListsAt table set) (apart : Unrelated dag set) : RepresentsAt dag table set := by
  cases table with
  | none => exact lists
  | some table => exact Lists.represents lists apart

/-! ## Collecting the levels -/

/-- The level would hold the genesis alone, and is not the first. -/
def GenesisOnly (pm : ParentsManager) (building : Building) (level : Nat) :
    Prop :=
  level > 0 ∧ ∃ candidates, building.candidatesByLevel level = some candidates ∧
    pm.genesisHash ∈ candidates ∧ candidates.entries.length = 1

variable (order : RangeOrder)

/-- A level that has candidates ends the loop or is listed. -/
theorem collectLevels_range' {table : CandidateMap} {start number : Nat}
    (atStart : building.candidatesByLevel start = some table) (notEmpty : table.entries ≠ []) :
    collectLevels bpb order building (List.range' start (number + 1)) =
      if start > 0 ∧ bpb.genesisHash ∈ table ∧ table.entries.length = 1 then []
      else levelBlocks order building start table ::
        collectLevels bpb order building (List.range' (start + 1) number) := by
  have hasBlocks : (levelBlocks order building start table).length > 0 := by
    rw [levelBlocks, length_map, (order.perm _ _).length_eq]
    exact length_pos_iff.mpr notEmpty
  rw [range'_succ, collectLevels, atStart]
  dsimp only
  rw [if_pos hasBlocks]

/-- A level is listed if no level up to it holds the genesis alone. -/
theorem getD_collectLevels {table : Nat → CandidateMap} {start number index : Nat}
    (started : ∀ level, start ≤ level → level < start + number → building.candidatesByLevel level =
    some (table level) ∧ (table level).entries ≠ []) (inRange : index < number)
    (noneBelow : ∀ level, start ≤ level → level ≤ start + index →
    ¬ GenesisOnly bpb.toParentsManager building level) :
    (collectLevels bpb order building (List.range' start number)).getD index [] =
    levelBlocks order building (start + index) (table (start + index)) := by
  induction number generalizing start index with
  | zero => exact absurd inRange (Nat.not_lt_zero _)
  | succ number ih =>
    have atStart := started start le_rfl (by omega)
    have notGenesis : ¬ (start > 0 ∧ bpb.genesisHash ∈ table start ∧ (table start).entries.length =
        1) := fun both => noneBelow start le_rfl (Nat.le_add_right _ _) ⟨both.1, table start,
        atStart.1, both.2⟩
    rw [collectLevels_range' order atStart.1 atStart.2, if_neg notGenesis]
    cases index with
    | zero => rfl
    | succ index =>
      rw [getD_cons_succ, ih ?_ (by omega) ?_]
      · rw [Nat.add_right_comm, add_assoc]
      · intro level above below
        exact started level (by omega) (by omega)
      · intro level above below
        exact noneBelow level (by omega) (by omega)

/-- A level is left out from the first one on that holds the genesis alone. -/
theorem getD_collectLevels_of_genesis {start number index : Nat}
    (isOnly : number ≤ index ∨ ∃ level, start ≤ level ∧ level ≤ start + index ∧
    GenesisOnly bpb.toParentsManager building level)
    (started : ∀ level, start ≤ level → level < start + number → ∃ table,
    building.candidatesByLevel level = some table ∧ table.entries ≠ []) :
    (collectLevels bpb order building (List.range' start number)).getD index [] = [] := by
  induction number generalizing start index with
  | zero => rfl
  | succ number ih =>
    rcases started start le_rfl (by omega) with ⟨table, atStart, notEmpty⟩
    rw [collectLevels_range' order atStart notEmpty]
    by_cases isGenesis : start > 0 ∧ bpb.genesisHash ∈ table ∧ table.entries.length = 1
    · rw [if_pos isGenesis]
      rfl
    rw [if_neg isGenesis]
    have notHere : ¬ GenesisOnly bpb.toParentsManager building start := by
      rintro ⟨pos, _, same, only⟩
      rw [atStart, Option.some.injEq] at same
      exact isGenesis ⟨pos, same ▸ only⟩
    cases index with
    | zero =>
      exfalso
      rcases isOnly with beyond | ⟨level, above, below, only⟩
      · omega
      · obtain rfl : level = start := by omega
        exact notHere only
    | succ index =>
      rw [getD_cons_succ, ih ?_ ?_]
      · rcases isOnly with beyond | ⟨level, above, below, only⟩
        · exact .inl (by omega)
        · have differs : level ≠ start := by
            rintro rfl
            exact notHere only
          exact .inr ⟨level, by omega, by omega, only⟩
      · intro level above below
        exact started level (by omega) (by omega)

/-! ## The order of the direct parents -/

theorem firstParentInFuture_eq {dag : Dag DomainHash} (unpruned : Unpruned bpb dag)
    {directParents : List DomainHash} (areNodes : ∀ hash ∈ directParents, hash ∈ nodes dag) :
    firstParentInFuture bpb directParents = .ok
    (directParents.findIdx? (isAncestor dag bpb.pruningPoint)) := by
  induction directParents with
  | nil => rfl
  | cons first rest ih =>
    have answer := unpruned.isAncestorOf _ unpruned.pruningPoint first
      (areNodes first ((.head _) ..))
    rw [firstParentInFuture, ok_bind answer, List.findIdx?_cons]
    cases isAncestor dag bpb.pruningPoint first with
    | true => rfl
    | false =>
      rw [if_neg Bool.false_ne_true, ok_bind (ih fun hash isIn => areNodes hash (.tail _ isIn))]
      rfl

theorem mem_swapFirst {items : List DomainHash} {index : Nat}
    {hash : DomainHash} : hash ∈ swapFirst items index ↔ hash ∈ items := by
  rw [swapFirst]
  split
  · next first other isFirst isIn =>
    rcases List.getElem?_eq_some_iff.mp isFirst with ⟨hasFirst, rfl⟩
    rcases List.getElem?_eq_some_iff.mp isIn with ⟨hasOther, rfl⟩
    exact (set_set_perm hasFirst hasOther).mem_iff
  · exact Iff.rfl

end

/-! ## The blocks of a level -/

/-- The block belongs to the level; the genesis belongs to every level. -/
def Occupies (pm : ParentsManager) (store : FiniteMap DomainHash BlockHeader)
    (level : Nat) (block : DomainHash) : Prop :=
  block = pm.genesisHash ∨ ∃ header, store.lookup block = some header ∧
    level ≤ header.blockLevel pm.maxBlockLevel

/-- The blocks of a past that belong to a level. -/
def levelSet (pm : ParentsManager) (store : FiniteMap DomainHash BlockHeader)
    (past : Set DomainHash) (level : Nat) : Set DomainHash :=
  { block | block ∈ past ∧ Occupies pm store level block }

/-- The past of a block with these direct parents. -/
def pastOf (dag : Dag DomainHash) (directParents : List DomainHash) : Set DomainHash :=
  { block | ∃ parent ∈ directParents, block = parent ∨ InPast dag block parent }

/-- Every header lists the maximal blocks of each level of its past. -/
structure Headed (pm : ParentsManager) (dag : Dag DomainHash)
    (store : FiniteMap DomainHash BlockHeader) : Prop where
  fromGenesis : FromGenesis pm.genesisHash dag
  stored : ∀ block ∈ nodes dag, ∃ header, store.lookup block = some header ∧ ∀ level hash,
    hash ∈ parentsAtLevel pm header level ↔ IsMaximal (InPast dag)
    (levelSet pm store { ancestor | InPast dag ancestor block } level) hash

section

variable {pm : ParentsManager} {dag : Dag DomainHash} {store : FiniteMap DomainHash BlockHeader}

variable {block : DomainHash} {header : BlockHeader}

section

variable (headed : Headed pm dag store) (isNode : block ∈ nodes dag)
  (isHeader : store.lookup block = some header)

include headed isNode isHeader

theorem Headed.lists (level : Nat) (hash : DomainHash) : hash ∈ parentsAtLevel pm header level ↔
    IsMaximal (InPast dag) (levelSet pm store { upper | InPast dag upper block } level) hash := by
  rcases headed.stored block isNode with ⟨_, isFound, lists⟩
  rw [isHeader, Option.some.injEq] at isFound
  rw [isFound, lists]

theorem Headed.orderly : Orderly pm dag header := by
  have lists := headed.lists isNode isHeader
  constructor
  · intro level hash isIn
    exact headed.fromGenesis.topological.ancestor_mem ((lists level hash).mp isIn).1.1
  · intro level first isFirst second isSecond
    exact ((lists level first).mp isFirst).not_before ((lists level second).mp isSecond)

/-- On the levels there are, a block occupies those up to its own. -/
theorem Headed.occupies_iff {level : Nat} (inRange : level ≤ pm.maxBlockLevel) :
    Occupies pm store level block ↔ level ≤ header.blockLevel pm.maxBlockLevel := by
  constructor
  · rintro (isGenesis | ⟨_, isFound, below⟩)
    · have noParents : header.directParents.length = 0 := by
        by_contra hasParents
        have some : ∃ hash, hash ∈ parentsAtLevel pm header 0 := by
          rw [parentsAtLevel]
          by_cases empty : (header.parents.getD 0 []).length = 0
          · rw [if_pos ⟨empty, Nat.pos_of_ne_zero hasParents⟩]
            exact ⟨_, .head _ ..⟩
          · rw [if_neg fun both => empty both.1]
            exact exists_mem_of_length_pos (Nat.pos_of_ne_zero empty)
        rcases some with ⟨hash, isIn⟩
        have past := ((headed.lists isNode isHeader 0 hash).mp isIn).1.1
        rw [isGenesis] at past
        exact headed.fromGenesis.not_before past
      rw [BlockHeader.blockLevel, if_pos noParents]
      exact inRange
    · rw [isHeader, Option.some.injEq] at isFound
      rwa [isFound]
  · exact fun below => .inr ⟨header, isHeader, below⟩

end

/-! ## What is taken for a level -/

/-- The direct parents of a level, and what their headers list on it. -/
def taken (pm : ParentsManager) (pairs : List (DomainHash × BlockHeader))
    (level : Nat) : Set DomainHash :=
  { hash | ∃ pair ∈ pairs, hash = pair.1 ∧ level ≤ pair.2.blockLevel pm.maxBlockLevel } ∪
    { hash | ∃ header ∈ pairs.map Prod.snd, hash ∈ parentsAtLevel pm header level }

/-- What is taken for a level has the maximal blocks of the level's past. -/
theorem isMaximal_taken (headed : Headed pm dag store) {directParents : List DomainHash}
    (known : ∀ hash ∈ directParents, hash ∈ nodes dag) {pairs : List (DomainHash × BlockHeader)}
    (isPaired : ∀ hash, hash ∈ pairs.map Prod.fst ↔ hash ∈ directParents)
    (areStored : ∀ pair ∈ pairs, store.lookup pair.1 = some pair.2) {level : Nat}
    (inRange : level ≤ pm.maxBlockLevel) {hash : DomainHash} : IsMaximal (InPast dag)
    (taken pm pairs level) hash ↔ IsMaximal (InPast dag)
    (levelSet pm store (pastOf dag directParents) level) hash := by
  have topological := headed.fromGenesis.topological
  have link : ∀ pair ∈ pairs, pair.1 ∈ directParents := fun pair isIn =>
    (isPaired pair.1).mp (mem_map_of_mem isIn)
  have listsOf := fun pair isIn => headed.lists (known _ (link pair isIn)) (areStored pair isIn)
  refine isMaximal_of_cofinal (fun first second => first.trans second) ?_ ?_
  · rintro block (⟨pair, isIn, rfl, below⟩ | ⟨_, isHeader, listed⟩)
    · exact ⟨⟨pair.1, link pair isIn, .inl rfl⟩, Or.inr ⟨pair.2, areStored pair isIn, below⟩⟩
    · rcases mem_map.mp isHeader with ⟨pair, isIn, rfl⟩
      have isBelow := ((listsOf pair isIn level block).mp listed).1
      exact ⟨⟨pair.1, link pair isIn, .inr isBelow.1⟩, isBelow.2⟩
  · rintro block ⟨⟨parent, isDirect, isBelow⟩, occupies⟩
    rcases mem_map.mp ((isPaired parent).mpr isDirect) with ⟨pair, isIn, rfl⟩
    rcases isBelow with rfl | past
    · refine ⟨pair.1, .inl ⟨pair, isIn, rfl, ?_⟩, .inl rfl⟩
      exact (headed.occupies_iff (known _ isDirect) (areStored pair isIn) inRange).mp occupies
    rcases dominated topological (levelSet pm store { upper | InPast dag upper pair.1 } level) block
      ⟨past, occupies⟩ with ⟨top, isTop, below⟩
    refine ⟨top, .inr ⟨pair.2, mem_map_of_mem isIn, ?_⟩, below⟩
    exact (listsOf pair isIn level top).mpr isTop

end

end Htnd.BlockParents.Levels
