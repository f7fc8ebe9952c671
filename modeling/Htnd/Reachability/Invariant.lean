import Htnd.Reachability.Ancestors

/-!
# Indexed trees

The invariant of the reachability tree.  The virtual genesis has the whole
span, every node encloses its children, and the chain to the reindex root is
tight: beside it each node spends at most the reindex slack on either side and
for every node under its other children.  Hence the spans along the chain stay
wide, far wider than what a reindexing takes from them.

While a child without room is being added its own span is empty; such a leaf
is spared.
-/

namespace Htnd.Reachability.Invariant

open Lib.RootedTree Lib.SpanTree Utxo.Entry Reachability.Tree Shape
open Ancestors

variable {children : DomainHash → List DomainHash} {parent : DomainHash → Option DomainHash}
  {genesis root node lower : DomainHash}
  {spared : DomainHash → Prop} {span span' : DomainHash → Span} {slack : Nat}

/-- The genesis has the whole span, and all but spared leaves enclose. -/
structure Nested (children : DomainHash → List DomainHash)
    (genesis : DomainHash) (spared : DomainHash → Prop) (span : DomainHash → Span) : Prop where
  atGenesis : span genesis = ⟨1, 2 ^ 64 - 1⟩
  encloses : ∀ node, Below children genesis node → ¬ spared node → Encloses span children node
  leaves : ∀ node, spared node → children node = []

/-- Nested, with a tight chain to the reindex root. -/
structure Indexed (children : DomainHash → List DomainHash) (genesis : DomainHash)
    (spared : DomainHash → Prop) (slack : Nat) (root : DomainHash) (span : DomainHash → Span) :
    Prop extends Nested children genesis spared span where
  tight : ∀ node, Below children genesis node → Below children node root →
    node ≠ root → Tight span children slack root node

section

variable (nested : Nested children genesis spared span) (inTree : Below children genesis node)

include nested inTree

theorem Nested.encloses_inner (inner : children node ≠ []) : Encloses span children node :=
  nested.encloses node inTree fun isSpared => inner (nested.leaves node isSpared)

theorem Nested.contains (below : Below children node lower) : (span node).Contains (span lower) :=
  contains_of_below (fun _ under => nested.encloses_inner (inTree.trans under)) below

/-- No end of a span wraps around. -/
theorem Nested.bounds : 1 ≤ (span node).lo ∧ (span node).lo ≤ (span node).hi ∧
      (span node).hi < 2 ^ 64 := by
  have contains := nested.contains (.refl genesis) inTree
  rw [nested.atGenesis] at contains
  refine ⟨contains.1, ?_, contains.2.trans_lt (by decide)⟩
  rcases inTree.cases_parent with rfl | ⟨_, mem, aboveIn⟩
  · rw [nested.atGenesis]
    decide
  · rcases nested.encloses_inner aboveIn (List.ne_nil_of_mem mem) with ⟨_, _, -, tiles, -⟩
    exact (tiles.bounds mem).2.1

end

/-- A subtree without spared leaves has room for its size. -/
theorem Nested.size_le_width (tree : Rooted children parent genesis)
    (nested : Nested children genesis spared span) (inTree : Below children genesis node)
    (noneSpared : ∀ lower, Below children node lower → ¬ spared lower) :
    size children node ≤ (span node).width :=
  Htnd.Lib.SpanTree.size_le_width tree inTree fun lower below =>
    nested.encloses lower (inTree.trans below) (noneSpared lower below)

/-- The interval test answers for tree ancestry. -/
theorem Nested.below_iff (nested : Nested children genesis spared span)
    (nodeIn : Below children genesis node) (lowerIn : Below children genesis lower)
    (notSpared : ¬ spared lower) : Below children node lower ↔ (span node).Contains (span lower) :=
  Htnd.Lib.SpanTree.below_iff (fun _ => nested.encloses_inner)
    nodeIn lowerIn (nested.encloses lower lowerIn notSpared).nonempty

/-- `FindNextAncestor` takes the next step down to the descendant. -/
theorem Nested.findNextAncestor {store : ReachabilityDataStore} {shape : TreeShape}
    (isShape : shapeOf store = shape) (nested : Nested shape.children genesis spared (spanOf store))
    {descendant upper result : DomainHash} (inTree : shape.Below genesis upper)
    (below : shape.Below upper descendant) (ne : upper ≠ descendant)
    (onlyLast : ∀ child ∈ (shape.children upper).dropLast, ¬ spared child)
    (notSpared : ¬ spared descendant) (isOk : store.findNextAncestor descendant upper =
    .ok result) : result ∈ shape.children upper ∧ shape.Below result descendant := by
  rcases below.cases_child with same | ⟨target, mem, path⟩
  · exact absurd same ne
  have childIn : ∀ child ∈ shape.children upper, shape.Below genesis child := fun child isChild =>
    inTree.trans (.of_child isChild)
  rcases nested.encloses_inner inTree (List.ne_nil_of_mem mem) with ⟨_, _, floor, tiles, -⟩
  have isTarget := findNextAncestor_ok isShape tiles ((nested.bounds inTree).1.trans floor)
    (fun child isChild => (nested.encloses child (childIn child (List.dropLast_subset _ isChild))
    (onlyLast child isChild)).nonempty) mem (nested.contains (childIn target mem) path)
    (nested.encloses descendant (inTree.trans below) notSpared).nonempty isOk
  rw [isTarget]
  exact ⟨mem, path⟩

theorem Indexed.congr (index : Indexed children genesis spared slack root span)
    (same : ∀ node, Below children genesis node → span' node = span node) :
    Indexed children genesis spared slack root span' := by
  have alike : ∀ node, Below children genesis node →
      ∀ child ∈ children node, span' child = span child := fun node inTree child mem =>
      same child (inTree.trans (.of_child mem))
  refine ⟨⟨?_, ?_, index.leaves⟩, ?_⟩
  · rw [same genesis (Below.refl genesis), index.atGenesis]
  · intro node inTree notSpared
    exact (index.encloses node inTree notSpared).congr (same node inTree) (alike node inTree)
  · intro node inTree onChain ne
    exact (index.tight node inTree onChain ne).congr (same node inTree) (alike node inTree)

/-- The slack is small against the number of nodes that have to fit. -/
structure Ample (slack nodes : Nat) : Prop where
  two_le : 2 ≤ slack
  fits : (4 * slack + 4) * nodes ≤ 2 ^ 60

theorem Ample.nodes_le {nodes : Nat} (ample : Ample slack nodes) : nodes ≤ 2 ^ 57 := by
  have fits := ample.fits
  have two_le := ample.two_le
  have scaled : 12 * nodes ≤ (4 * slack + 4) * nodes := Nat.mul_le_mul_right nodes (by omega)
  omega

theorem Ample.mono {nodes some : Nat} (ample : Ample slack nodes)
    (atMost : some ≤ nodes) : Ample slack some :=
  ⟨ample.two_le, (Nat.mul_le_mul_left _ atMost).trans ample.fits⟩

theorem Ample.mul_le {nodes some : Nat} (ample : Ample slack nodes)
    (atMost : some ≤ nodes) : slack * some + some ≤ 2 ^ 58 := by
  have fits := ample.fits
  have scaled : (4 * slack + 4) * some ≤ (4 * slack + 4) * nodes := Nat.mul_le_mul_left _ atMost
  have expanded : (4 * slack + 4) * some = 4 * (slack * some) + 4 * some := by ring
  omega

/-- The spans along a tight chain from the genesis are wide. -/
theorem wide_of_tight (tree : Rooted children parent genesis)
    (atGenesis : span genesis = ⟨1, 2 ^ 64 - 1⟩) (tight : ∀ node, Below children genesis node →
    Below children node root → node ≠ root → Tight span children slack root node)
    (ample : Ample slack (size children genesis)) (inTree : Below children genesis node)
    (onChain : Below children node root) : 2 ^ 63 ≤ (span node).width := by
  have widths := width_of_tight tree (fun above onChain ne inTree =>
      tight above inTree onChain ne) inTree onChain
  have fits := ample.fits
  rw [atGenesis] at widths
  change 2 ^ 64 - 1 - 1 + _ ≤ _ at widths
  have scaled : (3 * slack + 1) * size children genesis ≤ (4 * slack + 4) * size children genesis :=
    Nat.mul_le_mul_right _ (by omega)
  omega

theorem Indexed.wide (tree : Rooted children parent genesis)
    (index : Indexed children genesis spared slack root span)
    (ample : Ample slack (size children genesis)) (inTree : Below children genesis node)
    (onChain : Below children node root) : 2 ^ 63 ≤ (span node).width :=
  wide_of_tight tree index.atGenesis index.tight ample inTree onChain

/-! ## Stores -/

/-- The stored tree is made of the given blocks and is indexed. -/
structure IndexedStore (slack : Nat) (blocks : List DomainHash)
    (store : ReachabilityDataStore) : Prop where
  tree : Rooted (shapeOf store).children (shapeOf store).parent virtualGenesisBlockHash
  nodes : ∀ block, Below (shapeOf store).children virtualGenesisBlockHash block ↔ block ∈ blocks
  indexed : ∃ root, (shapeOf store).reindexRoot = some root ∧ root ∈ blocks ∧
    Indexed (shapeOf store).children virtualGenesisBlockHash (fun _ => False) slack root
    (spanOf store)

/-- The tree has no more nodes than blocks were added. -/
theorem size_le_length {blocks : List DomainHash} (nodes : ∀ block, Below children genesis block →
    block ∈ blocks) : size children genesis ≤ blocks.length := by
  classical
  calc size children genesis ≤ (blocks.toFinset : Set DomainHash).ncard :=
        Set.ncard_le_ncard (fun block below =>
          List.mem_toFinset.mpr (nodes block below)) (Finset.finite_toSet _)
    _ = blocks.toFinset.card := Set.ncard_coe_finset _
    _ ≤ blocks.length := List.toFinset_card_le blocks

theorem IndexedStore.sameTree {blocks : List DomainHash} {store store' : ReachabilityDataStore}
    (sound : IndexedStore slack blocks store)
    (same : SameTree store store') : IndexedStore slack blocks store' := by
  rcases sound with ⟨tree, nodes, index⟩
  constructor
  · rw [same.children, same.parent]
    exact tree
  · rw [same.children]
    exact nodes
  · rw [same.children, same.reindexRoot, same.span]
    exact index

end Htnd.Reachability.Invariant
