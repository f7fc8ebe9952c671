import Htnd.Ghostdag.Colouring

/-!
# Colouring a graph

`GHOSTDAG` is run for the blocks of a graph, the oldest first.  It answers for
every block, and the data it stores splits the past of the block: what is not
in the past of the selected parent is in the merge set.  Along the selected
chain the merge sets therefore split the whole past.
-/

namespace Htnd.Ghostdag.DagColouring

open Relation Lib.BlockDag Lib.Fallible Lib.RangeLoops Utxo.Entry Manager List
open MergeSet Colouring Topological

/-- `GHOSTDAG` for the blocks of a graph, the oldest first. -/
def colourDag (gm : GhostdagManager) (rounds : Nat) :
    Dag DomainHash → Except GhostdagError GHOSTDAGDataStore
  | [] => .ok ∅
  | (block, _) :: dag => do
    let store ← colourDag gm rounds dag
    ghostdag gm rounds store block

/-- A graph rooted at the genesis for which the manager answers. -/
structure BlockGraph (gm : GhostdagManager) (dag : Dag DomainHash) : Prop where
  topological : Topological dag
  genesis : ∀ block blockParents, (block, blockParents) ∈ dag →
    (blockParents = [] ↔ block = gm.genesisHash)
  unrelated : ∀ block blockParents, (block, blockParents) ∈ dag → Unrelated dag blockParents
  exact : Exact gm dag

/-- The headers, versions and ranks that are asked for are there. -/
structure Answers (gm : GhostdagManager) (dag : Dag DomainHash) : Prop where
  headers : ∀ block ∈ nodes dag, block ≠ virtualGenesisBlockHash →
    ∃ bits, gm.headerBits block = .ok bits
  versions : ∀ selectedParent, ∃ version, gm.blockVersion selectedParent = .ok version
  ranks : ∀ block blockParents, (block, blockParents) ∈ dag → ∀ selectedParent version,
    gm.blockVersion selectedParent = .ok version → version ≥ 6 → ∃ rank,
    gm.calculateRank blockParents = .ok rank
  hasK : gm.k ≠ []

variable {gm : GhostdagManager} {dag : Dag DomainHash}
  {store : GHOSTDAGDataStore} {block : DomainHash} {blockParents : List DomainHash}

theorem BlockGraph.tail (graph : BlockGraph gm ((block, blockParents) :: dag)) :
    BlockGraph gm dag := by
  rcases graph with ⟨_ | ⟨prior, fresh, _⟩, genesis, apart, exact⟩
  refine ⟨prior, ?_, ?_, exact.tail prior fresh⟩
  · intro other otherParents entry
    exact genesis other otherParents (.tail _ entry)
  · intro other otherParents entry
    rcases apart other otherParents (.tail _ entry) with ⟨nodup, notPast⟩
    refine ⟨nodup, fun first isFirst second isSecond past => ?_⟩
    have secondIn : second ∈ nodes dag :=
      prior.parent_mem ((prior.mem_parents_iff entry).mp isSecond)
    exact notPast first isFirst second isSecond ((prior.inPast_old fresh secondIn).mpr past)

/-- The parents of the newest block are unrelated without it. -/
theorem BlockGraph.unrelated_tail (graph : BlockGraph gm ((block, blockParents) :: dag)) :
    Unrelated dag blockParents := by
  rcases graph.unrelated block blockParents (.head _) with ⟨nodup, notPast⟩
  rcases graph.topological with _ | ⟨prior, fresh, known⟩
  refine ⟨nodup, fun first isFirst second isSecond past => ?_⟩
  exact notPast first isFirst second isSecond
    ((inPast_old prior fresh (known second isSecond)).mpr past)

theorem Answers.tail (answers : Answers gm ((block, blockParents) :: dag)) : Answers gm dag where
  headers other otherIn := answers.headers other (mem_nodes.mpr (.inr otherIn))
  versions := answers.versions
  ranks other otherParents entry := answers.ranks other otherParents (.tail _ entry)
  hasK := answers.hasK

/-- The genesis is in the past of every other block. -/
theorem BlockGraph.genesis_inPast (graph : BlockGraph gm dag) (inDag : block ∈ nodes dag) :
    gm.genesisHash = block ∨ InPast dag gm.genesisHash block := by
  induction dag generalizing block with
  | nil => cases inDag
  | cons entry dag ih =>
    rcases entry with ⟨_, newParents⟩
    have old := @ih block graph.tail
    rcases graph.topological with _ | ⟨prior, fresh, known⟩
    rcases mem_nodes.mp inDag with rfl | isOld
    · cases newParents with
      | nil => exact .inl ((graph.genesis block [] (.head _)).mp rfl).symm
      | cons parent others =>
        right
        rw [inPast_new prior fresh known]
        exact ⟨parent, .head _, ih graph.tail (known parent (.head _))⟩
    · rw [inPast_old prior fresh isOld]
      exact old isOld

/-! ## What is stored -/

/-- The data of a block with parents. -/
structure Merged (dag : Dag DomainHash) (store : GHOSTDAGDataStore)
    (block : DomainHash) (data : BlockGHOSTDAGData) (selectedParent : DomainHash) : Prop where
  isParent : IsParent dag block selectedParent
  selected : data.selectedParent = some selectedParent
  isBlue : selectedParent ∈ data.mergeSetBlues
  nodup : (data.mergeSetBlues ++ data.mergeSetReds).Nodup
  mem_iff : ∀ other, other ∈ data.mergeSetBlues ++ data.mergeSetReds ↔
    InPast dag other block ∧ ¬ InPast dag other selectedParent
  score : ∃ parentData, store.lookup selectedParent = some parentData ∧
    data.blueScore = parentData.blueScore + UInt64.ofNat data.mergeSetBlues.length
  entry : data.bluesAnticoneSizes.lookup selectedParent = some 0
  alone : data.mergeSetBlues.length = 1 → data.bluesAnticoneSizes =
    (∅ : FiniteMap DomainHash KType).insert selectedParent 0

/-- The data of a block without parents. -/
structure Rootlike (dag : Dag DomainHash) (block : DomainHash)
    (data : BlockGHOSTDAGData) : Prop where
  noParent : ∀ parent, ¬ IsParent dag block parent
  data_eq : ∃ k, data = ⟨0, 0, k, none, [], [], ∅⟩

/-- The data of every block of the graph is as the graph has it. -/
def Coloured (dag : Dag DomainHash) (store : GHOSTDAGDataStore) : Prop :=
  ∀ block ∈ nodes dag, ∃ data, store.lookup block = some data ∧
    (Rootlike dag block data ∨ ∃ selectedParent, Merged dag store block data selectedParent)

theorem getData_of {data : BlockGHOSTDAGData} (found : store.lookup block = some data) :
    getData store block = .ok data := by
  rw [getData, found]

theorem Coloured.storeOk (graph : BlockGraph gm dag)
    (coloured : Coloured dag store) : StoreOk dag store := by
  intro block inDag
  rcases coloured block inDag with ⟨data, found, root | ⟨parent, merged⟩⟩
  · refine ⟨data, getData_of found, ?_⟩
    rcases root with ⟨noParent, k, rfl⟩
    refine ⟨nofun, fun _ _ otherIn => ?_, nofun⟩
    have isGenesis : block = gm.genesisHash := by
      rcases graph.genesis_inPast inDag with same | past
      · exact same.symm
      · rcases TransGen.head'_iff.mp past with ⟨parent, link, -⟩
        exact absurd link (noParent parent)
    rw [isGenesis]
    exact graph.genesis_inPast otherIn
  · refine ⟨data, getData_of found, ?_, ?_, ?_⟩
    · intro _ chosen
      rw [merged.selected] at chosen
      cases chosen
      exact merged.isParent
    · intro chosen
      rw [merged.selected] at chosen
      cases chosen
    · intro blue isBlue
      exact ((merged.mem_iff blue).mp (mem_append_left _ isBlue)).1

variable {other : DomainHash}

theorem lookup_old {data : BlockGHOSTDAGData}
    (fresh : block ∉ nodes dag) (otherIn : other ∈ nodes dag) :
    (store.insert block data).lookup other = store.lookup other := by
  rw [insert_ite, if_neg]
  rintro rfl
  exact fresh otherIn

/-- The data of the old blocks is still as the graph has it. -/
theorem Coloured.cons (coloured : Coloured dag store) (prior : Topological dag)
    (fresh : block ∉ nodes dag) {data : BlockGHOSTDAGData}
    (isNew : Rootlike ((block, blockParents) :: dag) block data ∨ ∃ selectedParent,
    Merged ((block, blockParents) :: dag) (store.insert block data) block data selectedParent) :
    Coloured ((block, blockParents) :: dag) (store.insert block data) := by
  intro other otherIn
  rcases mem_nodes.mp otherIn with rfl | isOld
  · exact ⟨data, AList.lookup_insert store, isNew⟩
  rcases coloured other isOld with ⟨oldData, found, kind⟩
  refine ⟨oldData, (lookup_old fresh isOld).trans found, ?_⟩
  rcases kind with ⟨noParent, data_eq⟩ | ⟨parent, merged⟩
  · left
    refine ⟨fun parent link => ?_, data_eq⟩
    exact noParent parent ((isParent_old fresh isOld).mp link)
  right
  have parentIn := prior.parent_mem merged.isParent
  refine ⟨parent, (isParent_old fresh isOld).mpr merged.isParent, merged.selected, merged.isBlue,
    merged.nodup, ?_, ?_, merged.entry, merged.alone⟩
  · intro upper
    rw [inPast_old prior fresh isOld, inPast_old prior fresh parentIn]
    exact merged.mem_iff upper
  · rw [lookup_old fresh parentIn]
    exact merged.score

/-! ## One block -/

theorem kForBlockVersion_total (hasK : gm.k ≠ []) (version : UInt16) :
    ∃ k, kForBlockVersion gm version = .ok k := by
  have pos := length_pos_iff.mpr hasK
  rw [kForBlockVersion]
  generalize (version.toNat - 1) = index
  have inRange : (if index ≥ gm.k.length then gm.k.length - 1 else index) <
      gm.k.length := by
    split_ifs <;> omega
  rw [List.getElem?_eq_getElem inRange]
  exact ⟨_, rfl⟩

theorem Answers.kForBlock_total (answers : Answers gm dag) (store : GHOSTDAGDataStore)
    (entry : (block, blockParents) ∈ dag) {selectedParent : Option DomainHash} {version : UInt16}
    (isVersion : gm.blockVersion selectedParent = .ok version) : ∃ k,
    kForBlock gm store version block blockParents = .ok k := by
  rw [kForBlock]
  split_ifs with isDynamic
  · rcases answers.ranks block blockParents entry selectedParent version
      isVersion isDynamic with ⟨_, isRank⟩
    rw [dynamicKForBlock]
    split
    · exact ⟨_, rfl⟩
    · rw [ok_bind isRank]
      exact ⟨_, rfl⟩
  · exact kForBlockVersion_total answers.hasK version

/-- A block is not in the selected past: it is selected or is merged. -/
theorem eq_or_not_stops_iff (topo : Topological dag) {selectedParent : DomainHash} :
    (other = selectedParent ∨ ¬ Stops dag selectedParent other) ↔
    ¬ InPast dag other selectedParent := by
  constructor
  · rintro (rfl | goesOn) past
    · exact topo.irrefl past
    · exact goesOn (.inr past)
  · intro notPast
    by_cases same : other = selectedParent
    · exact .inl same
    · refine .inr ?_
      rintro (chosen | past)
      · exact same chosen
      · exact notPast past

section NewBlock

variable {k : KType} {selectedParent : DomainHash} {merged : List DomainHash}
  {data parentData : BlockGHOSTDAGData} (prior : Topological dag) (fresh : block ∉ nodes dag)
  (known : ∀ parent ∈ blockParents, parent ∈ nodes dag) (isParent : selectedParent ∈ blockParents)
  (mem_mergeSet : ∀ other, other ∈ merged ↔ (∃ parent ∈ blockParents, other = parent ∨
  InPast dag other parent) ∧ ¬ Stops dag selectedParent other)

include mem_mergeSet

omit fresh isParent in
include prior known in
theorem mergeSet_mem_nodes : ∀ other ∈ merged, other ∈ nodes dag ∧ other ≠ selectedParent := by
  intro other isIn
  rcases (mem_mergeSet other).mp isIn with ⟨⟨_, isAbove, path⟩, goesOn⟩
  refine ⟨?_, fun same => goesOn (.inl same)⟩
  rcases path with rfl | past
  · exact known other isAbove
  · exact prior.ancestor_mem past

include prior fresh known isParent

theorem merged_of_colours (nodup : merged.Nodup)
    (colours : Colours selectedParent merged (uncoloured k selectedParent) data)
    (found : store.lookup selectedParent = some parentData)
    (isScore : data.blueScore = parentData.blueScore + UInt64.ofNat data.mergeSetBlues.length) :
    Merged ((block, blockParents) :: dag) (store.insert block data) block data
      selectedParent := by
  rcases colours with ⟨same, ⟨_, _, perm, isBlues, isReds, sizes⟩, frame⟩
  have merges : (data.mergeSetBlues ++ data.mergeSetReds).Perm (selectedParent :: merged) := by
    rw [isBlues, isReds]
    exact perm.cons selectedParent
  have ne : selectedParent ≠ block := by
    rintro rfl
    exact fresh (known selectedParent isParent)
  refine ⟨(isParent_new fresh).mpr isParent, same, ?_, ?_, ?_, ⟨parentData, ?_, isScore⟩, ?_, ?_⟩
  · rw [isBlues]
    exact .head _
  · rw [merges.nodup_iff, nodup_cons]
    exact ⟨fun inSet => (mergeSet_mem_nodes prior known mem_mergeSet
      selectedParent inSet).2 rfl, nodup⟩
  · intro other
    rw [merges.mem_iff]
    rw [mem_cons, mem_mergeSet, inPast_new prior fresh known,
      inPast_old prior fresh (known selectedParent isParent), ← eq_or_not_stops_iff prior]
    constructor
    · rintro (rfl | ⟨path, goesOn⟩)
      · exact ⟨⟨other, isParent, .inl rfl⟩, .inl rfl⟩
      · exact ⟨path, .inr goesOn⟩
    · rintro ⟨path, same | goesOn⟩
      · exact .inl same
      · exact .inr ⟨path, goesOn⟩
  · rw [insert_ite, if_neg ne, found]
  · rw [frame]
    exact AList.lookup_insert _
  · intro length_eq
    refine sizes (length_eq_zero_iff.mp ?_)
    rw [isBlues, length_append] at length_eq
    exact Nat.add_eq_left.mp length_eq

end NewBlock

/-- The blues are those the colouring loop finds in the merge set. -/
def ColoursMergeSet (gm : GhostdagManager) (rounds : Nat) (dag : Dag DomainHash)
    (store : GHOSTDAGDataStore) (block : DomainHash) (blockParents : List DomainHash)
    (data : BlockGHOSTDAGData) (selectedParent : DomainHash) : Prop :=
  ∃ version k mergeSet coloured, gm.blockVersion (some selectedParent) = .ok version ∧
    kForBlock gm store version block blockParents = .ok k ∧
    (∀ other, other ∈ mergeSet ↔ (∃ parent ∈ blockParents, other = parent ∨ InPast dag other parent)
    ∧ ¬ Stops dag selectedParent other) ∧ colourMergeSet gm rounds store k version mergeSet
    (uncoloured k selectedParent) = .ok coloured ∧ data.mergeSetBlues = coloured.mergeSetBlues

variable {rounds : Nat}

/-- `GHOSTDAG` answers for a new block with parents. -/
theorem ghostdagWithParents_eq (graph : BlockGraph gm ((block, blockParents) :: dag))
    (answers : Answers gm ((block, blockParents) :: dag)) (coloured : Coloured dag store)
    (notRoot : blockParents ≠ []) (enough : dag.length ≤ rounds) :
    ∃ data selectedParent, ghostdagWithParents gm rounds store block blockParents = .ok data ∧
    Merged ((block, blockParents) :: dag) (store.insert block data) block data selectedParent ∧
    ColoursMergeSet gm rounds dag store block blockParents data
        selectedParent := by
  have old := graph.tail
  have storeOk := coloured.storeOk old
  have apart := graph.unrelated_tail
  rcases graph.topological with _ | ⟨prior, fresh, known⟩
  have hasData : ∀ other ∈ nodes dag, ∃ data, store.lookup other = some data := by
    intro other otherIn
    rcases coloured other otherIn with ⟨data, found, -⟩
    exact ⟨data, found⟩
  rcases findSelectedParent_eq notRoot (fun parent isParent => by
    rcases hasData parent (known parent isParent) with ⟨data, found⟩
    exact ⟨data, getData_of found⟩) with ⟨parent, isParent, finds⟩
  have parentIn := known parent isParent
  rcases hasData parent parentIn with ⟨parentData, found⟩
  rcases answers.versions (some parent) with ⟨version, isVersion⟩
  rcases answers.kForBlock_total store (.head _) isVersion with ⟨k, isK⟩
  rcases mergeSetWithoutSelectedParent_eq prior old.exact known apart
    isParent rounds (by simpa [nodes] using enough) hasData with ⟨_, searches, nodup, mem_mergeSet⟩
  have inMergeSet := mergeSet_mem_nodes prior known mem_mergeSet
  have selected : (uncoloured k parent).selectedParent = some parent := rfl
  rcases colourMergeSet_eq k version prior old.exact storeOk parentIn enough
    inMergeSet selected with ⟨data, colouring, colours⟩
  have blueIn : ∀ blue ∈ data.mergeSetBlues, blue ∈ nodes dag := by
    rcases colours.split with ⟨_, reds, perm, isBlues, -⟩
    intro blue isBlue
    rw [isBlues] at isBlue
    rcases mem_append.mp isBlue with chosen | isNew
    · rw [mem_singleton.mp chosen]
      exact parentIn
    · exact (inMergeSet blue (perm.subset (mem_append_left reds isNew))).1
  rcases workOfBlues_total fun blue isBlue =>
    answers.headers blue (mem_nodes.mpr (.inr (blueIn blue isBlue))) with ⟨work, works⟩
  refine ⟨{ data with
    blueScore := parentData.blueScore + UInt64.ofNat data.mergeSetBlues.length
    blueWork := parentData.blueWork + work }, parent, ?_, ?_,
    version, k, _, data, isVersion, isK, mem_mergeSet, colouring, rfl⟩
  · rw [ghostdagWithParents, ok_bind finds]
    dsimp only
    rw [ok_bind isVersion, ok_bind isK, ok_bind searches,
      ok_bind colouring, ok_bind (getData_of found), ok_bind works]
    rfl
  · exact merged_of_colours prior fresh known isParent mem_mergeSet nodup
      ⟨colours.selected, colours.split, colours.untouched⟩ found rfl

/-- `GHOSTDAG` answers for the newest block of a graph. -/
theorem ghostdag_eq (graph : BlockGraph gm ((block, blockParents) :: dag))
    (answers : Answers gm ((block, blockParents) :: dag)) (coloured : Coloured dag store)
    (enough : dag.length ≤ rounds) : ∃ data, ghostdag gm rounds store block =
    .ok (store.insert block data) ∧ (Rootlike ((block, blockParents) :: dag) block data ∨
    ∃ selectedParent, Merged ((block, blockParents) :: dag) (store.insert block data) block data
    selectedParent ∧ ColoursMergeSet gm rounds dag store block blockParents data selectedParent) :=
    by
  have reads := graph.exact.parents block blockParents (.head _)
  rw [ghostdag, ok_bind reads]
  by_cases isRoot : blockParents = []
  · rcases answers.versions none with ⟨version, isVersion⟩
    rcases kForBlockVersion_total answers.hasK version with ⟨k, isK⟩
    have result : ghostdagGenesis gm = .ok ⟨0, 0, k, none, [], [], ∅⟩ := by
      rw [ghostdagGenesis, ok_bind isVersion, ok_bind isK]
      rfl
    rw [if_pos isRoot, ok_bind result]
    refine ⟨_, rfl, .inl ⟨fun _ link => ?_, k, rfl⟩⟩
    have isParent := (graph.topological.mem_parents_iff (.head _)).mpr link
    rw [isRoot] at isParent
    exact not_mem_nil isParent
  · rcases ghostdagWithParents_eq graph answers coloured isRoot enough with
      ⟨data, selectedParent, result, both⟩
    rw [if_neg isRoot, ok_bind result]
    exact ⟨data, rfl, .inr ⟨selectedParent, both⟩⟩

/-- `GHOSTDAG` answers for every block of a graph. -/
theorem colourDag_eq (graph : BlockGraph gm dag) (answers : Answers gm dag)
    (enough : dag.length ≤ rounds) : ∃ store, colourDag gm rounds dag = .ok store ∧
    Coloured dag store := by
  induction dag with
  | nil => exact ⟨∅, rfl, nofun⟩
  | cons entry dag ih =>
    rcases entry with ⟨block, blockParents⟩
    have fewer : dag.length ≤ rounds := (Nat.le_succ _).trans enough
    rcases ih graph.tail answers.tail fewer with ⟨store, colours, coloured⟩
    rcases ghostdag_eq graph answers coloured fewer with ⟨data, result, isNew⟩
    rw [colourDag, ok_bind colours]
    refine ⟨_, result, ?_⟩
    rcases graph.topological with _ | ⟨prior, fresh, _⟩
    exact coloured.cons prior fresh (isNew.imp_right fun ⟨selectedParent, merged, _⟩ =>
      ⟨selectedParent, merged⟩)

/-! ## The manager of a graph -/

/-- A manager that answers for a graph and gives every block version one. -/
def managerOf (dag : Dag DomainHash) (k : KType) (genesisHash : DomainHash) : GhostdagManager where
  parents block :=
    match dag.lookup block with
    | some blockParents => .ok blockParents
    | none => .error (.blockRelationNotFound block)
  isAncestorOf ancestor block := .ok (isAncestor dag ancestor block)
  headerBits _ := .ok 0x207fffff
  blockVersion _ := .ok 1
  calculateRank _ := .ok 0
  k := [k]
  genesisHash := genesisHash

variable {k : KType} {genesisHash : DomainHash}

theorem exact_managerOf (topo : Topological dag) : Exact (managerOf dag k genesisHash) dag where
  parents block blockParents entry := by
    have found : dag.lookup block = some blockParents := by
      induction topo with
      | nil => cases entry
      | @cons dag newest newParents prior fresh known ih =>
        rcases mem_cons.mp entry with same | old
        · cases same
          exact lookup_cons_self
        have ne : block ≠ newest := by
          rintro rfl
          exact fresh (mem_map_of_mem old)
        rw [lookup_cons, beq_false_of_ne ne]
        exact ih old
    dsimp only [managerOf]
    rw [found]
  isAncestorOf upper _ block inDag := ⟨isAncestor dag upper block, rfl, topo.isAncestor_iff inDag⟩

theorem answers_managerOf : Answers (managerOf dag k genesisHash) dag where
  headers _ _ _ := ⟨_, rfl⟩
  versions _ := ⟨1, rfl⟩
  ranks _ _ _ _ _ _ _ := ⟨0, rfl⟩
  hasK := cons_ne_nil _ _

theorem blockGraph_managerOf (topological : Topological dag)
    (genesis : ∀ entry ∈ dag, (entry.2 = [] ↔ entry.1 = genesisHash))
    (apart : ∀ entry ∈ dag, entry.2.Nodup ∧ ∀ first ∈ entry.2, ∀ second ∈ entry.2, first ≠ second →
    isAncestor dag first second = false) : BlockGraph (managerOf dag k genesisHash) dag where
  topological := topological
  genesis block blockParents entry := genesis (block, blockParents) entry
  unrelated block blockParents entry := by
    rcases apart (block, blockParents) entry with ⟨nodup, unrelated⟩
    refine ⟨nodup, fun first isFirst second isSecond past => ?_⟩
    by_cases same : first = second
    · rw [same] at past
      exact topological.irrefl past
    · have secondIn := topological.parent_mem ((topological.mem_parents_iff entry).mp isSecond)
      have related := (topological.isAncestor_iff secondIn).mpr (.inr past)
      rw [unrelated first isFirst second isSecond same] at related
      cases related
  exact := exact_managerOf topological

end Htnd.Ghostdag.DagColouring
