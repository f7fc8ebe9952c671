import Htnd.Ghostdag.DagColouring

/-!
# The selected chain

The selected parents lead from every block down to the genesis.  Each block
of the past lies in the merge set of exactly one block of this chain, and the
blue score counts the blocks of the past that are blue there.
-/

namespace Htnd.Ghostdag.SelectedChain

open Relation Lib.BlockDag Utxo.Entry Manager List
open DagColouring

def SelectedParent (store : GHOSTDAGDataStore) (block parent : DomainHash) :
    Prop :=
  ∃ data, store.lookup block = some data ∧ data.selectedParent = some parent

/-- The chain of selected parents, the block itself included. -/
def OnChain (store : GHOSTDAGDataStore) (block chainBlock : DomainHash) :
    Prop :=
  ReflTransGen (SelectedParent store) block chainBlock

/-- The selected parent is in the merge set, among the blues. -/
def InMergeSet (store : GHOSTDAGDataStore) (block other : DomainHash) : Prop :=
  ∃ data, store.lookup block = some data ∧ (other ∈ data.mergeSetBlues ∨ other ∈ data.mergeSetReds)

/-- The blues of the merge sets along the selected chain. -/
def blueSet (store : GHOSTDAGDataStore) (block : DomainHash) : Set DomainHash :=
  {blue | ∃ chainBlock data, OnChain store block chainBlock ∧
    store.lookup chainBlock = some data ∧ blue ∈ data.mergeSetBlues}

variable {gm : GhostdagManager} {dag : Dag DomainHash}
  {store : GHOSTDAGDataStore} {block other selectedParent : DomainHash} {data : BlockGHOSTDAGData}

/-- Induction along the selected chain. -/
theorem chain_induction (topo : Topological dag) (coloured : Coloured dag store)
    {motive : (block : DomainHash) → block ∈ nodes dag → Prop}
    (root : ∀ block data blockIn, store.lookup block = some data → Rootlike dag block data →
    motive block blockIn) (step : ∀ block data selectedParent blockIn parentIn,
    store.lookup block = some data → Merged dag store block data selectedParent →
    motive selectedParent parentIn → motive block blockIn) (block : DomainHash)
    (blockIn : block ∈ nodes dag) : motive block blockIn := by
  induction isAge : age dag block using Nat.strong_induction_on generalizing block with
  | _ blockAge ih =>
    rcases coloured block blockIn with ⟨data, found, isRoot | ⟨parent, merged⟩⟩
    · exact root block data blockIn found isRoot
    have parentIn := topo.parent_mem merged.isParent
    have older := topo.age_lt merged.isParent
    rw [isAge] at older
    exact step block data parent blockIn parentIn found merged (ih _ older parent parentIn rfl)

/-! ## One step of the chain -/

variable {lower : DomainHash}

section Root

variable (found : store.lookup block = some data) (isRoot : Rootlike dag block data)

include found isRoot

theorem onChain_root_iff : OnChain store block lower ↔ lower = block := by
  constructor
  · intro path
    rcases ReflTransGen.cases_head path with same | ⟨_, link, -⟩
    · exact same.symm
    rcases link with ⟨_, isIn, chosen⟩
    rcases isRoot.data_eq with ⟨k, rfl⟩
    rw [found] at isIn
    cases isIn
    cases chosen
  · rintro rfl
    exact .refl

theorem blueSet_root : blueSet store block = ∅ := by
  ext blue
  refine iff_of_false ?_ (Set.notMem_empty blue)
  rintro ⟨_, _, path, isIn, isBlue⟩
  rw [onChain_root_iff found isRoot] at path
  rcases isRoot.data_eq with ⟨k, rfl⟩
  rw [path, found] at isIn
  cases isIn
  exact not_mem_nil isBlue

end Root

section Merged

variable (found : store.lookup block = some data)
  (merged : Merged dag store block data selectedParent)

include found merged

theorem onChain_merged : OnChain store block lower ↔ lower = block ∨
    OnChain store selectedParent lower := by
  constructor
  · intro path
    rcases ReflTransGen.cases_head path with same | ⟨_, link, rest⟩
    · exact .inl same.symm
    rcases link with ⟨_, isIn, chosen⟩
    rw [found] at isIn
    cases isIn
    rw [merged.selected] at chosen
    cases chosen
    exact .inr rest
  · rintro (rfl | rest)
    · exact .refl
    · exact .head ⟨data, found, merged.selected⟩ rest

theorem inMergeSet_merged : InMergeSet store block other ↔
      InPast dag other block ∧ ¬ InPast dag other selectedParent := by
  rw [← merged.mem_iff, mem_append]
  constructor
  · rintro ⟨_, isIn, mem⟩
    rw [found] at isIn
    cases isIn
    exact mem
  · exact fun mem => ⟨data, found, mem⟩

theorem blueSet_merged : blueSet store block =
      {blue | blue ∈ data.mergeSetBlues} ∪ blueSet store selectedParent := by
  ext blue
  constructor
  · rintro ⟨lower, other, path, isIn, isBlue⟩
    rcases (onChain_merged found merged).mp path with rfl | rest
    · rw [found] at isIn
      cases isIn
      exact .inl isBlue
    · exact .inr ⟨lower, other, rest, isIn, isBlue⟩
  · rintro (isBlue | ⟨lower, other, rest, isIn, isBlue⟩)
    · exact ⟨block, data, .refl, found, isBlue⟩
    · exact ⟨lower, other, (onChain_merged found merged).mpr (.inr rest), isIn, isBlue⟩

end Merged

/-! ## The whole chain -/

section Chain

variable (topo : Topological dag) (coloured : Coloured dag store) (blockIn : block ∈ nodes dag)

include topo coloured blockIn

/-- The merge sets along the chain lie in the past. -/
theorem inPast_of_inMergeSet (path : OnChain store block lower)
    (mem : InMergeSet store lower other) : InPast dag other block := by
  induction block, blockIn using chain_induction topo coloured with
  | root block data _ found isRoot =>
    rw [onChain_root_iff found isRoot] at path
    rcases mem with ⟨_, isIn, mem⟩
    rcases isRoot.data_eq with ⟨k, rfl⟩
    rw [path, found] at isIn
    cases isIn
    simp at mem
  | step block data selectedParent _ _ found merged ih =>
    rcases (onChain_merged found merged).mp path with rfl | rest
    · exact ((inMergeSet_merged found merged).mp mem).1
    · exact (ih rest).trans (.of_parent merged.isParent)

/-- Every block of the past is in one merge set of the chain. -/
theorem existsUnique_inMergeSet (past : InPast dag other block) :
    ∃! lower, OnChain store block lower ∧ InMergeSet store lower other := by
  induction block, blockIn using chain_induction topo coloured with
  | root block data _ found isRoot =>
    rcases TransGen.head'_iff.mp past with ⟨parent, link, -⟩
    exact absurd link (isRoot.noParent parent)
  | step block data selectedParent _ parentIn found merged ih =>
    by_cases inSelected : InPast dag other selectedParent
    · rcases ih inSelected with ⟨lower, ⟨path, mem⟩, unique⟩
      refine ⟨lower, ⟨?_, mem⟩, ?_⟩
      · exact (onChain_merged found merged).mpr (.inr path)
      · rintro another ⟨anotherPath, anotherMember⟩
        rcases (onChain_merged found merged).mp anotherPath with rfl | rest
        · exact absurd inSelected ((inMergeSet_merged found merged).mp anotherMember).2
        · exact unique another ⟨rest, anotherMember⟩
    · refine ⟨block, ⟨.refl, ?_⟩, ?_⟩
      · exact (inMergeSet_merged found merged).mpr ⟨past, inSelected⟩
      · rintro another ⟨anotherPath, anotherMember⟩
        rcases (onChain_merged found merged).mp anotherPath with same | rest
        · exact same
        · exact absurd (inPast_of_inMergeSet topo coloured parentIn rest anotherMember) inSelected

theorem blueSet_subset : blueSet store block ⊆ {blue | InPast dag blue block} := by
  rintro blue ⟨_, data, path, found, isBlue⟩
  exact inPast_of_inMergeSet topo coloured blockIn path ⟨data, found, .inl isBlue⟩

theorem finite_blueSet : (blueSet store block).Finite := by
  refine (finite_toSet (nodes dag)).subset fun _ isBlue => ?_
  exact topo.ancestor_mem (blueSet_subset topo coloured blockIn isBlue)

/-- The blue score counts the blues of the chain. -/
theorem blueScore_eq (found : store.lookup block = some data) :
    data.blueScore = UInt64.ofNat (blueSet store block).ncard := by
  induction block, blockIn using chain_induction topo coloured generalizing data with
  | root block rootData _ foundRoot isRoot =>
    rw [foundRoot] at found
    cases found
    rw [blueSet_root foundRoot isRoot, Set.ncard_empty]
    rcases isRoot.data_eq with ⟨k, rfl⟩
    rfl
  | step block mergedData selectedParent _ parentIn foundMerged merged ih =>
    rw [foundMerged] at found
    cases found
    have disjoint : Disjoint {blue | blue ∈ mergedData.mergeSetBlues}
        (blueSet store selectedParent) := by
      rw [Set.disjoint_left]
      intro blue isBlue isOld
      have member := mem_append_left mergedData.mergeSetReds isBlue
      exact ((merged.mem_iff blue).mp member).2 (blueSet_subset topo coloured parentIn isOld)
    have nodup := (nodup_append.mp merged.nodup).1
    have count : {blue | blue ∈ mergedData.mergeSetBlues}.ncard =
        mergedData.mergeSetBlues.length := by
      classical
      rw [← coe_toFinset, Set.ncard_coe_finset, toFinset_card_of_nodup nodup]
    rcases merged.score with ⟨_, foundParent, isScore⟩
    rw [isScore, ih foundParent, blueSet_merged foundMerged merged,
      Set.ncard_union_eq disjoint (finite_toSet _) (finite_blueSet topo coloured parentIn), count,
      UInt64.ofNat_add, UInt64.add_comm]

end Chain

theorem onChain_genesis (graph : BlockGraph gm dag) (coloured : Coloured dag store)
    (blockIn : block ∈ nodes dag) : OnChain store block gm.genesisHash := by
  induction block, blockIn using chain_induction graph.topological coloured with
  | root block data blockIn found isRoot =>
    rw [onChain_root_iff found isRoot]
    rcases graph.genesis_inPast blockIn with same | past
    · exact same
    · rcases TransGen.head'_iff.mp past with ⟨parent, link, -⟩
      exact absurd link (isRoot.noParent parent)
  | step block data selectedParent _ _ found merged ih =>
    exact (onChain_merged found merged).mpr (.inr ih)

/--
Colouring a graph gives every block but the genesis a merge set without
duplicates: what is in the past of the block and not in the past of its
selected parent.  The merge sets along the chain down to the genesis split the
past, and the blue score counts what is blue in them.
-/
theorem colourDag_splits_past (graph : BlockGraph gm dag)
    (answers : Answers gm dag) {rounds : Nat} (enough : dag.length ≤ rounds) :
    ∃ store, colourDag gm rounds dag = .ok store ∧ (∀ block ∈ nodes dag, block ≠ gm.genesisHash →
        ∃ data selectedParent, store.lookup block = some data ∧
          data.selectedParent = some selectedParent ∧ IsParent dag block selectedParent ∧
          selectedParent ∈ data.mergeSetBlues ∧ data.mergeSetBlues.Nodup ∧ data.mergeSetReds.Nodup ∧
          data.mergeSetBlues.Disjoint data.mergeSetReds ∧
          ∀ other, other ∈ data.mergeSetBlues ∨ other ∈ data.mergeSetReds ↔
            InPast dag other block ∧ ¬ InPast dag other selectedParent) ∧
      (∀ block ∈ nodes dag, OnChain store block gm.genesisHash ∧ ∀ other,
          (InPast dag other block → ∃! chainBlock, OnChain store block chainBlock ∧
              InMergeSet store chainBlock other) ∧ ∀ chainBlock, OnChain store block chainBlock →
            InMergeSet store chainBlock other → InPast dag other block) ∧
      ∀ block ∈ nodes dag, ∃ data, store.lookup block = some data ∧
        data.blueScore = UInt64.ofNat {other | InPast dag other block ∧
          other ∈ blueSet store block}.ncard := by
  rcases colourDag_eq graph answers enough with ⟨store, colours, coloured⟩
  have topo := graph.topological
  refine ⟨store, colours, ?_, ?_, ?_⟩
  · intro block blockIn notGenesis
    rcases coloured block blockIn with ⟨data, found, isRoot | ⟨selectedParent, merged⟩⟩
    · rcases graph.genesis_inPast blockIn with same | past
      · exact absurd same.symm notGenesis
      · rcases TransGen.head'_iff.mp past with ⟨parent, link, -⟩
        exact absurd link (isRoot.noParent parent)
    rcases nodup_append'.mp merged.nodup with ⟨blues, reds, disjoint⟩
    refine ⟨data, selectedParent, found, merged.selected, merged.isParent,
      merged.isBlue, blues, reds, disjoint, fun other => ?_⟩
    rw [← mem_append]
    exact merged.mem_iff other
  · intro block blockIn
    refine ⟨onChain_genesis graph coloured blockIn, fun other => ⟨?_, ?_⟩⟩
    · exact existsUnique_inMergeSet topo coloured blockIn
    · exact fun chainBlock => inPast_of_inMergeSet topo coloured blockIn
  · intro block blockIn
    rcases coloured block blockIn with ⟨data, found, -⟩
    have within := blueSet_subset topo coloured blockIn
    have counted : {other | InPast dag other block ∧
        other ∈ blueSet store block} = blueSet store block := Set.inter_eq_right.mpr within
    refine ⟨data, found, ?_⟩
    rw [counted]
    exact blueScore_eq topo coloured blockIn found

/-! ## Six blocks -/

/-- Two blocks over the genesis, their child, and a child of one of them. -/
def sixBlocks : Dag DomainHash :=
  [(.filled 6, [.filled 4, .filled 5]), (.filled 5, [.filled 3]),
    (.filled 4, [.filled 3, .filled 2]), (.filled 3, [.filled 1]),
    (.filled 2, [.filled 1]), (.filled 1, [])]

theorem topo_sixBlocks : Topological sixBlocks := by
  refine .cons (.cons (.cons (.cons (.cons (.cons .nil ?_ ?_) ?_ ?_) ?_ ?_) ?_ ?_) ?_ ?_) ?_ ?_
  all_goals decide +kernel

theorem blockGraph_sixBlocks : BlockGraph (managerOf sixBlocks 1 (.filled 1)) sixBlocks :=
  blockGraph_managerOf topo_sixBlocks (by decide +kernel) (by decide +kernel)

theorem colourDag_splits_past_sixBlocks :
    ∃ store, colourDag (managerOf sixBlocks 1 (.filled 1)) 6 sixBlocks =
        .ok store ∧ OnChain store (.filled 6) (.filled 1) ∧
      ∃ data, store.lookup (.filled 6) = some data ∧ data.blueScore = UInt64.ofNat
          {other | InPast sixBlocks other (.filled 6) ∧
            other ∈ blueSet store (.filled 6)}.ncard := by
  have isNode : DomainHash.filled 6 ∈ nodes sixBlocks := by decide +kernel
  rcases colourDag_splits_past blockGraph_sixBlocks answers_managerOf
    (le_refl 6) with ⟨store, colours, -, chain, score⟩
  exact ⟨store, colours, (chain _ isNode).1, score _ isNode⟩

end Htnd.Ghostdag.SelectedChain
