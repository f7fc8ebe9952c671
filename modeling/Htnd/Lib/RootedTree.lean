import Mathlib

/-!
# Rooted trees of child lists and parent pointers

A tree is given by a list of children for every node and a parent pointer
that inverts it.  All nodes that have a parent lie under one root.  The size
of a node is the number of nodes under it, itself included; it is one more
than the sizes of its children together.  A new leaf keeps the tree.
-/

namespace Htnd.Lib.RootedTree

open Relation List

universe u

variable {α : Type u}

/-- The second node is the first or is reached from it by child links. -/
def Below (children : α → List α) : α → α → Prop :=
  ReflTransGen fun node child => child ∈ children node

/-- The child lists and parent pointers form a finite tree under the root. -/
structure Rooted (children : α → List α) (parent : α → Option α) (root : α) : Prop where
  mem_children : ∀ {node child}, child ∈ children node ↔ parent child = some node
  nodup : ∀ node, (children node).Nodup
  parent_root : parent root = none
  rooted : ∀ {node child}, child ∈ children node → Below children root node
  finite : {node | Below children root node}.Finite

variable {children : α → List α} {parent : α → Option α} {root : α}
  {upper lower node child other : α}

namespace Below

theorem refl (node : α) : Below children node node := ReflTransGen.refl

theorem of_child (mem : child ∈ children node) : Below children node child :=
  ReflTransGen.single mem

theorem trans (first : Below children upper node)
    (second : Below children node lower) : Below children upper lower :=
  ReflTransGen.trans first second

theorem cases_parent (below : Below children upper lower) : upper = lower ∨
      ∃ node, lower ∈ children node ∧ Below children upper node := by
  rcases ReflTransGen.cases_tail below with same | ⟨node, path, mem⟩
  · exact .inl same.symm
  · exact .inr ⟨node, mem, path⟩

theorem cases_child (below : Below children upper lower) : upper = lower ∨
      ∃ child ∈ children upper, Below children child lower :=
  ReflTransGen.cases_head below

end Below

namespace Rooted

section

variable (tree : Rooted children parent root)

include tree

theorem parent_unique (first : child ∈ children node)
    (second : child ∈ children other) : node = other := by
  rw [tree.mem_children] at first second
  rw [first] at second
  exact Option.some.inj second

theorem root_not_child : root ∉ children node := by
  rw [tree.mem_children, tree.parent_root]
  exact nofun

/-- No path of child links leads from a node of the tree back to it. -/
theorem acyclic (inTree : Below children root node) :
    ¬ TransGen (fun node child => child ∈ children node) node node := by
  induction inTree with
  | refl =>
    intro cycle
    rcases TransGen.tail'_iff.mp cycle with ⟨last, -, mem⟩
    exact tree.root_not_child mem
  | @tail above node path mem ih =>
    intro cycle
    rcases TransGen.tail'_iff.mp cycle with ⟨last, toLast, lastIn⟩
    rw [tree.parent_unique lastIn mem] at toLast
    exact ih (.head' mem toLast)

theorem not_below (mem : child ∈ children node) : ¬ Below children child node :=
  fun below => tree.acyclic (tree.rooted mem) (.head' mem below)

theorem child_ne (mem : child ∈ children node) : child ≠ node := by
  rintro rfl
  exact tree.not_below mem (.refl child)

theorem antisymm (inTree : Below children root upper)
    (down : Below children upper lower) (up : Below children lower upper) : upper = lower := by
  rcases down.cases_child with same | ⟨_, mem, rest⟩
  · exact same
  · exact absurd (.head' mem (rest.trans up)) (tree.acyclic inTree)

/-- Two nodes above one node are comparable. -/
theorem comparable (first : Below children upper node) (second : Below children lower node) :
    Below children upper lower ∨ Below children lower upper := by
  induction first with
  | refl => exact .inr second
  | @tail above node path mem ih =>
    rcases second.cases_parent with rfl | ⟨_, lastIn, rest⟩
    · exact .inl (.tail path mem)
    · rw [tree.parent_unique lastIn mem] at rest
      exact ih rest

/-- Only one child of a node leads to a given node. -/
theorem child_unique (first : child ∈ children node)
    (second : other ∈ children node) (underFirst : Below children child lower)
    (underSecond : Below children other lower) : child = other := by
  have noPath : ∀ {child other}, child ∈ children node →
      other ∈ children node → Below children child other → child = other := by
    intro child other first second path
    rcases path.cases_parent with same | ⟨_, mem, rest⟩
    · exact same
    · rw [tree.parent_unique mem second] at rest
      exact absurd rest (tree.not_below first)
  rcases tree.comparable underFirst underSecond with path | path
  · exact noPath first second path
  · exact (noPath second first path).symm

/-- A node above a child is the child or above its parent. -/
theorem below_parent (mem : child ∈ children node) (below : Below children upper child)
    (ne : upper ≠ child) : Below children upper node := by
  rcases below.cases_parent with same | ⟨_, lastIn, rest⟩
  · exact absurd same ne
  · rw [tree.parent_unique lastIn mem] at rest
    exact rest

end

end Rooted

/-! ## Sizes -/

/-- The number of nodes under a node, itself included. -/
noncomputable def size (children : α → List α) (node : α) : Nat :=
  {lower | Below children node lower}.ncard

namespace Rooted

section

variable (tree : Rooted children parent root)

include tree

theorem finite_below (inTree : Below children root node) :
    {lower | Below children node lower}.Finite :=
  tree.finite.subset fun _ below => inTree.trans below

theorem size_pos (inTree : Below children root node) : 0 < size children node :=
  (Set.ncard_pos (tree.finite_below inTree)).mpr ⟨node, .refl node⟩

theorem size_le_below (inTree : Below children root upper) (below : Below children upper lower) :
    size children lower ≤ size children upper :=
  Set.ncard_le_ncard (fun _ under => below.trans under) (tree.finite_below inTree)

theorem size_child_lt (mem : child ∈ children node) : size children child < size children node := by
  refine Set.ncard_lt_ncard ?_ (tree.finite_below (tree.rooted mem))
  refine ⟨fun _ under => (Below.of_child mem).trans under, ?_⟩
  intro subset
  exact tree.not_below mem (subset (Below.refl node))

/-- The nodes under the given children of one node. -/
theorem ncard_below_any {some : List α} (members : ∀ child ∈ some, child ∈ children node)
    (nodup : some.Nodup) : {lower | ∃ child ∈ some, Below children child lower}.Finite ∧
    {lower | ∃ child ∈ some, Below children child lower}.ncard =
    (some.map (size children)).sum := by
  induction some with
  | nil =>
    have empty : {lower : α | ∃ child ∈ ([] : List α), Below children child lower} = ∅ := by
      ext lower
      exact ⟨fun ⟨_, mem, _⟩ => absurd mem not_mem_nil,
        fun mem => absurd mem (Set.notMem_empty lower)⟩
    rw [empty]
    exact ⟨Set.finite_empty, Set.ncard_empty α⟩
  | cons child rest ih =>
    have mem := members child (.head _)
    have restIn : ∀ other ∈ rest, other ∈ children node :=
      fun other inRest => members other (.tail child inRest)
    rw [nodup_cons] at nodup
    rcases ih restIn nodup.2 with ⟨restFinite, restCard⟩
    have childFinite := tree.finite_below ((tree.rooted mem).trans (.of_child mem))
    have split : {lower | ∃ other ∈ child :: rest, Below children other lower} =
        {lower | Below children child lower} ∪ {lower | ∃ other ∈ rest,
        Below children other lower} := by
      ext lower
      change (∃ other ∈ child :: rest, Below children other lower) ↔
        Below children child lower ∨ ∃ other ∈ rest, Below children other lower
      simp only [mem_cons, exists_eq_or_imp]
    have disjoint : Disjoint {lower | Below children child lower}
        {lower | ∃ other ∈ rest, Below children other lower} := by
      rw [Set.disjoint_left]
      rintro lower underChild ⟨other, inRest, underOther⟩
      have same := tree.child_unique mem (restIn other inRest) underChild underOther
      rw [same] at nodup
      exact nodup.1 inRest
    rw [split]
    refine ⟨childFinite.union restFinite, ?_⟩
    rw [Set.ncard_union_eq disjoint childFinite restFinite, restCard, map_cons, sum_cons, size]

theorem sum_size_le {some : List α} (members : ∀ child ∈ some, child ∈ children node)
    (nodup : some.Nodup) : (some.map (size children)).sum ≤ size children root := by
  rw [← (tree.ncard_below_any members nodup).2]
  refine Set.ncard_le_ncard ?_ tree.finite
  rintro _ ⟨child, isChild, below⟩
  have mem := members child isChild
  exact (tree.rooted mem).trans ((Below.of_child mem).trans below)

theorem size_eq (node : α) :
    size children node = ((children node).map (size children)).sum + 1 := by
  rcases tree.ncard_below_any (fun child mem => mem) (tree.nodup node) with ⟨finite, card⟩
  have split : {lower | Below children node lower} = insert node {lower | ∃ child ∈ children node,
      Below children child lower} := by
    ext lower
    constructor
    · intro below
      rcases below.cases_child with same | path
      · exact .inl same.symm
      · exact .inr path
    · rintro (same | ⟨child, mem, below⟩)
      · rw [same]
        exact .refl node
      · exact (Below.of_child mem).trans below
  have beyond : node ∉ {lower | ∃ child ∈ children node, Below children child lower} := by
    rintro ⟨child, mem, below⟩
    exact tree.not_below mem below
  rw [size, split, Set.ncard_insert_of_notMem beyond finite, card]

/-- Induction from the leaves: a node follows its children. -/
theorem induction_from_leaves {motive : α → Prop} (step : ∀ node, Below children root node →
    (∀ child ∈ children node, motive child) → motive node) (inTree : Below children root node) :
    motive node := by
  induction isSize : size children node using Nat.strong_induction_on generalizing node with
  | h bound ih =>
    refine step node inTree fun child mem => ?_
    have smaller := tree.size_child_lt mem
    rw [isSize] at smaller
    exact ih (size children child) smaller (inTree.trans (.of_child mem)) rfl

end

end Rooted

/-! ## A new leaf -/

section NewLeaf

variable {children' : α → List α} {parent' : α → Option α} {leaf : α}

/-- The leaf, which is outside the tree, becomes the last child of a node. -/
structure NewLeaf (children children' : α → List α)
    (parent parent' : α → Option α) (root node leaf : α) : Prop where
  inTree : Below children root node
  fresh : ¬ Below children root leaf
  atNode : children' node = children node ++ [leaf]
  elsewhere : ∀ other, other ≠ node → children' other = children other
  atLeaf : parent' leaf = some node
  parents : ∀ other, other ≠ leaf → parent' other = parent other

namespace NewLeaf

variable (new : NewLeaf children children' parent parent' root node leaf)

include new

theorem mem_children' {above below : α} : below ∈ children' above ↔
      below ∈ children above ∨ (above = node ∧ below = leaf) := by
  by_cases same : above = node
  · rw [same, new.atNode, mem_append, mem_singleton]
    exact or_congr_right ⟨fun isLeaf => ⟨rfl, isLeaf⟩, And.right⟩
  · rw [new.elsewhere above same]
    exact ⟨.inl, fun either => either.resolve_right fun both => same both.1⟩

theorem below_of_below {above lower : α}
    (below : Below children above lower) : Below children' above lower := by
  induction below with
  | refl => exact .refl above
  | tail path mem ih => exact .tail ih (new.mem_children'.mpr (.inl mem))

section

variable (tree : Rooted children parent root)

include tree

theorem children_leaf : children leaf = [] := by
  rw [eq_nil_iff_forall_not_mem]
  intro _ mem
  exact new.fresh (tree.rooted mem)

theorem leaf_not_child {above : α} : leaf ∉ children above :=
  fun mem => new.fresh ((tree.rooted mem).trans (.of_child mem))

theorem children'_leaf : children' leaf = [] := by
  rw [new.elsewhere leaf, new.children_leaf tree]
  rintro rfl
  exact new.fresh new.inTree

theorem below'_iff {above lower : α} : Below children' above lower ↔ Below children above lower ∨
      (lower = leaf ∧ Below children above node) := by
  constructor
  · intro below
    induction below with
    | refl => exact .inl (.refl above)
    | @tail middle lower path mem ih =>
      rcases ih with old | ⟨isLeaf, -⟩
      · rcases new.mem_children'.mp mem with oldMember | ⟨rfl, rfl⟩
        · exact .inl (.tail old oldMember)
        · exact .inr ⟨rfl, old⟩
      · rw [isLeaf, new.children'_leaf tree] at mem
        cases mem
  · rintro (old | ⟨rfl, old⟩)
    · exact new.below_of_below old
    · exact (new.below_of_below old).trans (.of_child (new.mem_children'.mpr (.inr ⟨rfl, rfl⟩)))

theorem rooted : Rooted children' parent' root where
  mem_children {above below} := by
    rw [new.mem_children']
    by_cases isLeaf : below = leaf
    · rw [isLeaf, new.atLeaf, Option.some.injEq]
      constructor
      · rintro (mem | ⟨same, -⟩)
        · exact absurd mem (new.leaf_not_child tree)
        · exact same.symm
      · exact fun same => .inr ⟨same.symm, rfl⟩
    · rw [new.parents below isLeaf, tree.mem_children]
      exact ⟨fun either => either.resolve_right fun both => isLeaf both.2, Or.inl⟩
  nodup above := by
    by_cases same : above = node
    · rw [same, new.atNode, nodup_append]
      refine ⟨tree.nodup node, nodup_singleton leaf, ?_⟩
      intro _ inFirst _ inSecond
      rw [mem_singleton.mp inSecond]
      rintro rfl
      exact new.leaf_not_child tree inFirst
    · rw [new.elsewhere above same]
      exact tree.nodup above
  parent_root := by
    rw [new.parents root]
    · exact tree.parent_root
    · rintro rfl
      exact new.fresh (.refl root)
  rooted {above below} mem := by
    rcases new.mem_children'.mp mem with old | ⟨rfl, -⟩
    · exact new.below_of_below (tree.rooted old)
    · exact new.below_of_below new.inTree
  finite := by
    refine (tree.finite.insert leaf).subset ?_
    intro _ below
    rcases (new.below'_iff tree).mp below with old | ⟨isLeaf, -⟩
    · exact .inr old
    · exact .inl isLeaf

theorem size_le {above : α} (inTree : Below children root above) :
    size children above ≤ size children' above :=
  Set.ncard_le_ncard (fun _ => new.below_of_below)
    ((new.rooted tree).finite_below (new.below_of_below inTree))

end

end NewLeaf

end NewLeaf

end Htnd.Lib.RootedTree
