import Htnd.Ghostdag.SelectedChain

/-!
# Clusters

The blue set of a block is meant to be a cluster: of the other blues at most
`K` lie in the anticone of a blue, and the recorded sizes count them.  The
walk that checks a candidate starts at the selected parent and never looks at
the blues of the new block, so the size recorded for the selected parent stays
zero.  It is right as long as the selected parent is the only blue of its
merge set, and then the blue set is a chain: so it is if `K` is zero, or if
what a block merges beside its selected parent is distant from the chain.
-/

namespace Htnd.Ghostdag.KCluster

open Relation Lib.BlockDag Lib.Fallible Lib.RangeLoops Utxo.Entry Manager
open Colouring DagColouring SelectedChain

/-- What is neither the block nor in its past or future. -/
def anticone (dag : Dag DomainHash) (block : DomainHash) : Set DomainHash :=
  {other | other ≠ block ∧ ¬ InPast dag other block ∧ ¬ InPast dag block other}

theorem mem_anticone {dag : Dag DomainHash} {block other : DomainHash} (topo : Topological dag)
    (blockIn : block ∈ nodes dag) (otherIn : other ∈ nodes dag)
    (unrelated : ¬ isAncestor dag other block = true ∧ ¬ isAncestor dag block other = true) :
    other ∈ anticone dag block := by
  rw [topo.isAncestor_iff blockIn, topo.isAncestor_iff otherIn] at unrelated
  exact ⟨fun same => unrelated.1 (.inl same),
    fun past => unrelated.1 (.inr past), fun past => unrelated.2 (.inr past)⟩

/-- The other blues in the anticone of a blue. -/
def blueAnticone (dag : Dag DomainHash) (store : GHOSTDAGDataStore)
    (block blue : DomainHash) : Set DomainHash :=
  blueSet store block ∩ anticone dag blue

/-- The conditions documented on `GHOSTDAG`. -/
structure IsKCluster (dag : Dag DomainHash) (store : GHOSTDAGDataStore)
    (k : KType) (block : DomainHash) : Prop where
  bounded : ∀ blue ∈ blueSet store block, (blueAnticone dag store block blue).encard ≤ k.toNat
  counted : ∀ blue ∈ blueSet store block, ∀ data size, store.lookup block = some data →
    data.bluesAnticoneSizes.lookup blue = some size → (blueAnticone dag store block blue).encard =
    size.toNat

/-- One `K` for every block, at versions without a dynamic one. -/
structure FixedK (gm : GhostdagManager) (dag : Dag DomainHash) (k : KType) : Prop where
  headers : ∀ block ∈ nodes dag, block ≠ virtualGenesisBlockHash →
    ∃ bits, gm.headerBits block = .ok bits
  versions : ∀ selectedParent, ∃ version,
    gm.blockVersion selectedParent = .ok version ∧ version < 6 ∧ kForBlockVersion gm version = .ok k

variable {gm : GhostdagManager} {dag : Dag DomainHash} {k : KType}
  {store : GHOSTDAGDataStore} {block selectedParent : DomainHash} {data : BlockGHOSTDAGData}

theorem FixedK.answers (fixed : FixedK gm dag k) : Answers gm dag where
  headers := fixed.headers
  versions selectedParent := by
    rcases fixed.versions selectedParent with ⟨version, isVersion, -⟩
    exact ⟨version, isVersion⟩
  ranks _ _ _ selectedParent version isVersion isDynamic := by
    rcases fixed.versions selectedParent with ⟨_, isIn, isStatic, -⟩
    rw [isVersion] at isIn
    cases isIn
    exact absurd isStatic (UInt16.not_lt.mpr isDynamic)
  hasK := by
    rcases fixed.versions none with ⟨version, -, -, isK⟩
    intro empty
    rw [kForBlockVersion, empty] at isK
    cases isK

theorem FixedK.tail {newParents : List DomainHash}
    (fixed : FixedK gm ((block, newParents) :: dag) k) : FixedK gm dag k where
  headers other otherIn := fixed.headers other (mem_nodes.mpr (.inr otherIn))
  versions := fixed.versions

/-! ## One blue in every merge set -/

theorem blues_eq_singleton (merged : Merged dag store block data selectedParent)
    (alone : data.mergeSetBlues.length ≤ 1) : data.mergeSetBlues = [selectedParent] := by
  have isBlue := merged.isBlue
  rcases isList : data.mergeSetBlues with _ | ⟨_, _ | ⟨_, _⟩⟩
  · rw [isList] at isBlue
    cases isBlue
  · rw [isList] at isBlue
    rw [List.mem_singleton.mp isBlue]
  · rw [isList] at alone
    simp at alone

/-- No block has a blue beside its selected parent. -/
def OneBlue (dag : Dag DomainHash) (store : GHOSTDAGDataStore) : Prop :=
  ∀ block ∈ nodes dag, ∀ data, store.lookup block = some data → data.mergeSetBlues.length ≤ 1

variable {blue : DomainHash}

section Alone

variable (topo : Topological dag) (coloured : Coloured dag store)
  (alone : OneBlue dag store) (blockIn : block ∈ nodes dag)

include topo coloured alone blockIn

/-- The blues of a chain are related. -/
theorem blueAnticone_eq_empty (isBlue : blue ∈ blueSet store block) :
    blueAnticone dag store block blue = ∅ := by
  induction block, blockIn using chain_induction topo coloured with
  | root block data _ found isRoot => rw [blueAnticone, blueSet_root found isRoot, Set.empty_inter]
  | step block data selectedParent blockIn parentIn found merged ih =>
    have within := blueSet_subset topo coloured parentIn
    have blues : blueSet store block = {selectedParent} ∪ blueSet store selectedParent := by
      rw [blueSet_merged found merged, blues_eq_singleton merged (alone block blockIn data found)]
      simp
    rw [blues] at isBlue
    rw [blueAnticone, blues, Set.eq_empty_iff_forall_notMem]
    rintro other ⟨chosen | isOld, ne, notPast, notFuture⟩
    · rcases isBlue with isBlue | isBlue
      · exact ne (chosen.trans isBlue.symm)
      · rw [chosen] at notFuture
        exact notFuture (within isBlue)
    · rcases isBlue with isBlue | isBlue
      · rw [isBlue] at notPast
        exact notPast (within isOld)
      · have empty := ih isBlue
        rw [Set.eq_empty_iff_forall_notMem] at empty
        exact empty other ⟨isOld, ne, notPast, notFuture⟩

theorem isKCluster_of_alone : IsKCluster dag store k block := by
  constructor
  · intro blue isBlue
    rw [blueAnticone_eq_empty topo coloured alone blockIn isBlue, Set.encard_empty]
    exact zero_le
  · intro blue isBlue data size found isEntry
    rw [blueAnticone_eq_empty topo coloured alone blockIn isBlue, Set.encard_empty]
    have isZero : size = 0 := by
      rcases coloured block blockIn with ⟨_, isStored, isRoot | ⟨_, merged⟩⟩
      · rw [found] at isStored
        cases isStored
        rcases isRoot.data_eq with ⟨k, rfl⟩
        cases isEntry
      rw [found] at isStored
      cases isStored
      have only := blues_eq_singleton merged (alone block blockIn data found)
      rw [merged.alone (by rw [only]; rfl), insert_ite] at isEntry
      split_ifs at isEntry
      · exact (Option.some.inj isEntry).symm
      · cases isEntry
    rw [isZero]
    rfl

end Alone

/-! ## Candidates over a chain -/

/-- So many blocks of the selected chain below a block are in an anticone. -/
def Misses (dag : Dag DomainHash) (store : GHOSTDAGDataStore)
    (other : DomainHash) : Nat → DomainHash → Prop
  | 0, _ => True
  | count + 1, block => ∃ parent, SelectedParent store block parent ∧
      parent ∈ anticone dag other ∧ Misses dag store other count parent

theorem merged_of_selected (coloured : Coloured dag store) (blockIn : block ∈ nodes dag)
    (found : store.lookup block = some data) (selected :
    SelectedParent store block selectedParent) : Merged dag store block data selectedParent := by
  rcases selected with ⟨_, isStored, chosen⟩
  rw [found] at isStored
  cases isStored
  rcases coloured block blockIn with ⟨_, isStored, isRoot | ⟨_, merged⟩⟩
  all_goals
    rw [found] at isStored
    cases isStored
  · rcases isRoot.data_eq with ⟨_, rfl⟩
    cases chosen
  · rw [merged.selected] at chosen
    cases chosen
    exact merged

theorem selectedParent_mem (coloured : Coloured dag store)
    (topo : Topological dag) (blockIn : block ∈ nodes dag)
    (selected : SelectedParent store block selectedParent) : selectedParent ∈ nodes dag := by
  rcases coloured block blockIn with ⟨_, found, -⟩
  exact topo.parent_mem (merged_of_selected coloured blockIn found selected).isParent

/--
More than `K` blocks of the selected chain strictly below the selected parent
are in the anticone of every other block that is merged.
-/
def MergesDistant (dag : Dag DomainHash) (store : GHOSTDAGDataStore)
    (k : KType) (block : DomainHash) : Prop :=
  ∀ selectedParent other, SelectedParent store block selectedParent → InPast dag other block →
    ¬ InPast dag other selectedParent → other ≠ selectedParent →
    Misses dag store other (k.toNat + 1) selectedParent

variable {count : KType}

theorem toNat_succ (few : count ≤ k) (small : k < 255) : (count + 1).toNat = count.toNat + 1 := by
  have below : count.toNat < 255 := UInt8.lt_iff_toNat_lt.mp (UInt8.lt_of_le_of_lt few small)
  rw [UInt8.toNat_add]
  exact Nat.mod_eq_of_lt (Nat.succ_lt_succ below)

section Walk

variable (graph : BlockGraph gm dag) (coloured : Coloured dag store)
  (alone : OneBlue dag store) (small : k < 255) {version : UInt16}
  (isStatic : version < 6) {other : DomainHash} (otherIn : other ∈ nodes dag) {rounds : Nat}

include graph alone small isStatic otherIn

/-- One step of the walk, past a block in the anticone of the candidate. -/
theorem checkChain_missed (blockIn : block ∈ nodes dag) (found : store.lookup block = some data)
    (merged : Merged dag store block data selectedParent)
    (apart : selectedParent ∈ anticone dag other) {parentData : BlockGHOSTDAGData}
    (foundParent : store.lookup selectedParent = some parentData)
    (sizes : FiniteMap DomainHash KType) (few : count ≤ k) :
    checkChain gm store other k version (rounds + 1) block data ⟨sizes, count⟩ =
      if count + 1 > k then .ok none
      else checkChain gm store other k version rounds selectedParent
        parentData ⟨sizes.insert selectedParent 0, count + 1⟩ := by
  have parentPast := InPast.of_parent merged.isParent
  have notAncestor {upper : DomainHash} (upperIn : upper ∈ nodes dag)
      (notAbove : ¬ (upper = other ∨ InPast dag upper other)) :
      gm.isAncestorOf upper other = .ok false := by
    rcases graph.exact.isAncestorOf upper upperIn other otherIn with ⟨answer, answers, iff⟩
    rw [answers, Bool.eq_false_iff.mpr (iff.not.mpr notAbove)]
  have blockApart := notAncestor blockIn fun above => apart.2.1
    (above.elim (fun same => same ▸ parentPast) parentPast.trans)
  have parentApart := notAncestor
    (graph.topological.parent_mem merged.isParent) (not_or.mpr ⟨apart.1, apart.2.1⟩)
  have isSize : blueAnticoneSize gm store selectedParent data k = .ok 0 := by
    unfold blueAnticoneSize walkForSize
    simp only [merged.entry]
  have notSeven : ¬ version ≥ 7 := UInt16.not_le.mpr (UInt16.lt_trans isStatic (by decide))
  rw [checkChain, checkBlueCandidateWithChainBlock, ok_bind blockApart]
  simp only [Bool.false_eq_true, if_false]
  rw [blues_eq_singleton merged (alone block blockIn data found), checkBlues, ok_bind parentApart]
  simp only [Bool.false_eq_true, if_false]
  rw [ok_bind isSize, if_neg notSeven]
  split_ifs with more full larger
  · rfl
  · exact absurd (UInt8.lt_iff_toNat_lt.mpr
      (by rw [toNat_succ few small, ← full]; exact Nat.succ_pos _)) more
  · exact absurd larger (UInt8.not_lt.mpr UInt8.zero_le)
  · rw [checkBlues, ok_bind rfl]
    simp only [merged.selected]
    rw [ok_bind (getData_of foundParent)]

include coloured

/-- Over a chain of blues a candidate that misses more than `K` is red. -/
theorem checkChain_red (blockIn : block ∈ nodes dag) (found : store.lookup block = some data)
    (enough : age dag block ≤ rounds) (sizes : FiniteMap DomainHash KType) {left : Nat}
    (isLeft : count.toNat + left = k.toNat) (misses : Misses dag store other (left + 1) block) :
    checkChain gm store other k version rounds block data ⟨sizes, count⟩ = .ok none := by
  have topo := graph.topological
  induction rounds generalizing block data sizes count left with
  | zero => exact absurd enough (age_pos blockIn).not_ge
  | succ rounds ih =>
    rcases misses with ⟨parent, selected, apart, rest⟩
    have merged := merged_of_selected coloured blockIn found selected
    have parentIn := topo.parent_mem merged.isParent
    rcases coloured parent parentIn with ⟨_, foundParent, -⟩
    have older := topo.age_lt merged.isParent
    have few : count ≤ k := UInt8.le_iff_toNat_le.mpr (by omega)
    have next := toNat_succ few small
    rw [checkChain_missed graph alone small isStatic otherIn blockIn found merged apart
      foundParent sizes few]
    cases left with
    | zero => exact if_pos (UInt8.lt_iff_toNat_lt.mpr (by omega))
    | succ left =>
      rw [if_neg (UInt8.not_lt.mpr (UInt8.le_iff_toNat_le.mpr (by omega)))]
      exact ih parentIn foundParent (by omega) _ (by omega) rest

variable {newData : BlockGHOSTDAGData}

theorem checkBlueCandidate_red (parentIn : selectedParent ∈ nodes dag)
    (enough : dag.length ≤ rounds)
    (distant : k = 0 ∨ Misses dag store other (k.toNat + 1) selectedParent)
    (chosen : newData.selectedParent = some selectedParent)
    (blues : newData.mergeSetBlues = [selectedParent]) : checkBlueCandidate gm rounds store newData
    other k version = .ok none := by
  rw [checkBlueCandidate, blues, chosen]
  split_ifs with isFull
  · rfl
  rcases distant with rfl | misses
  · exact absurd rfl isFull
  rcases coloured selectedParent parentIn with ⟨_, found, -⟩
  dsimp only
  rw [ok_bind (getData_of found)]
  exact checkChain_red graph coloured alone small isStatic otherIn parentIn
    found ((age_le dag selectedParent).trans enough) _ (Nat.zero_add _) misses

omit otherIn in
theorem colourMergeSet_red (parentIn : selectedParent ∈ nodes dag) (enough : dag.length ≤ rounds)
    {merged : List DomainHash} (distant : ∀ other ∈ merged, other ∈ nodes dag ∧
    (k = 0 ∨ Misses dag store other (k.toNat + 1) selectedParent))
    {result : BlockGHOSTDAGData} (chosen : newData.selectedParent = some selectedParent)
    (blues : newData.mergeSetBlues = [selectedParent])
    (run : colourMergeSet gm rounds store k version merged newData = .ok result) :
    result.mergeSetBlues = [selectedParent] := by
  induction merged generalizing newData with
  | nil =>
    cases run
    exact blues
  | cons other merged ih =>
    rw [List.forall_mem_cons] at distant
    rw [colourMergeSet, ok_bind (checkBlueCandidate_red graph coloured alone
      small isStatic distant.1.1 parentIn enough distant.1.2 chosen blues)] at run
    exact @ih { newData with
      mergeSetReds := newData.mergeSetReds ++ [other] } distant.2 chosen blues run

end Walk

/-! ## Growing the graph -/

section Growing

variable {newParents : List DomainHash} {old other : DomainHash}
  (coloured : Coloured dag store) (prior : Topological dag) (fresh : block ∉ nodes dag)

include coloured prior fresh

theorem misses_old (otherIn : other ∈ nodes dag) (oldIn : old ∈ nodes dag) {count : Nat}
    (misses : Misses ((block, newParents) :: dag) (store.insert block data) other count old) :
    Misses dag store other count old := by
  induction count generalizing old with
  | zero => trivial
  | succ count ih =>
    rcases misses with ⟨parent, ⟨_, isIn, chosen⟩, ⟨ne, notAbove, notBelow⟩, rest⟩
    rw [lookup_old fresh oldIn] at isIn
    have parentIn := selectedParent_mem coloured prior oldIn ⟨_, isIn, chosen⟩
    rw [prior.inPast_old fresh otherIn] at notAbove
    rw [prior.inPast_old fresh parentIn] at notBelow
    exact ⟨parent, ⟨_, isIn, chosen⟩, ⟨ne, notAbove, notBelow⟩, ih parentIn rest⟩

theorem mergesDistant_old (oldIn : old ∈ nodes dag)
    (distant : MergesDistant ((block, newParents) :: dag) (store.insert block data) k old) :
    MergesDistant dag store k old := by
  intro selectedParent other selected past notPast ne
  have parentIn := selectedParent_mem coloured prior oldIn selected
  refine misses_old coloured prior fresh (prior.ancestor_mem past) parentIn
    (distant selectedParent other ?_ ?_ ?_ ne)
  · rw [SelectedParent, lookup_old fresh oldIn]
    exact selected
  · exact (prior.inPast_old fresh oldIn).mpr past
  · rw [prior.inPast_old fresh parentIn]
    exact notPast

end Growing

/-- A graph that merges only distant blocks has no second blue. -/
theorem oneBlue_of_distant (graph : BlockGraph gm dag) (fixed : FixedK gm dag k) (small : k < 255)
    {rounds : Nat} (enough : dag.length ≤ rounds) (run : colourDag gm rounds dag = .ok store)
    (distant : k = 0 ∨ ∀ block ∈ nodes dag, MergesDistant dag store k block) :
    OneBlue dag store := by
  induction dag generalizing store with
  | nil => exact nofun
  | cons entry dag ih =>
    rcases entry with ⟨block, newParents⟩
    have fewer : dag.length ≤ rounds := (Nat.le_succ _).trans enough
    rcases colourDag_eq graph.tail fixed.tail.answers fewer with ⟨before, colours, coloured⟩
    rcases ghostdag_eq graph fixed.answers coloured fewer with ⟨data, result, isNew⟩
    have old := graph.tail
    rw [colourDag, ok_bind colours, result] at run
    cases run
    rcases graph.topological with _ | ⟨prior, fresh, known⟩
    have alone := ih old fixed.tail fewer colours (distant.imp_right fun all other otherIn =>
      mergesDistant_old coloured prior fresh otherIn (all other (mem_nodes.mpr (.inr otherIn))))
    intro other otherIn otherData found
    rcases mem_nodes.mp otherIn with rfl | isOld
    · rw [AList.lookup_insert] at found
      cases found
      rcases isNew with isRoot | ⟨parent, merged, version, _, _, _, isVersion,
        isK, mem_mergeSet, run, isBlues⟩
      · rcases isRoot.data_eq with ⟨_, rfl⟩
        exact Nat.zero_le 1
      rcases fixed.versions (some parent) with ⟨_, isIn, isStatic, staticK⟩
      rw [isVersion] at isIn
      cases isIn
      rw [kForBlock, if_neg (UInt16.not_le.mpr isStatic), staticK] at isK
      cases isK
      have parentIn := known parent ((Topological.isParent_new fresh).mp merged.isParent)
      have inDag := mergeSet_mem_nodes prior known mem_mergeSet
      rw [isBlues, colourMergeSet_red old coloured alone small isStatic
        parentIn fewer (fun m isIn => ⟨(inDag m isIn).1, ?_⟩) rfl rfl run]
      · exact le_rfl
      refine distant.imp_right fun all => ?_
      rcases (mem_mergeSet m).mp isIn with ⟨past, goesOn⟩
      refine misses_old coloured prior fresh (inDag m isIn).1 parentIn
        (all other otherIn parent m ⟨_, AList.lookup_insert before, merged.selected⟩
        ((prior.inPast_new fresh known).mpr past) ?_ (inDag m isIn).2)
      rw [prior.inPast_old fresh parentIn]
      exact fun stops => goesOn (.inr stops)
    · rw [lookup_old fresh isOld] at found
      exact alone other isOld otherData found

theorem fixedK_managerOf {genesisHash : DomainHash} :
    FixedK (managerOf dag k genesisHash) dag k where
  headers _ _ _ := ⟨_, rfl⟩
  versions _ := ⟨1, rfl, by decide, rfl⟩

/-- What is stored for a block and one of its blues. -/
structure Recorded where
  selectedParent : Option DomainHash
  mergeSetBlues : List DomainHash
  size : Option KType
deriving DecidableEq

def recorded (store : GHOSTDAGDataStore) (block blue : DomainHash) : Option Recorded :=
  (store.lookup block).map fun data => ⟨data.selectedParent, data.mergeSetBlues,
    data.bluesAnticoneSizes.lookup blue⟩

theorem lookup_of_recorded {record : Recorded}
    (isRecord : recorded store block blue = some record) : ∃ data, store.lookup block = some data ∧
    data.selectedParent = record.selectedParent ∧ data.mergeSetBlues = record.mergeSetBlues ∧
    data.bluesAnticoneSizes.lookup blue = record.size := by
  rcases Option.map_eq_some_iff.mp isRecord with ⟨data, found, rfl⟩
  exact ⟨data, found, rfl, rfl, rfl⟩

/-- A chain of four blocks, and a block that merges a child of the first. -/
def lateMerge : Dag DomainHash :=
  [(.filled 6, [.filled 4, .filled 5]), (.filled 5, [.filled 1]),
    (.filled 4, [.filled 3]), (.filled 3, [.filled 2]), (.filled 2, [.filled 1]), (.filled 1, [])]

end Htnd.Ghostdag.KCluster
