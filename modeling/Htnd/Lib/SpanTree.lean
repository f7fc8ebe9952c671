import Htnd.Lib.RootedTree

/-!
# Spans on a tree

Every node of a tree is labelled with a half-open span of natural numbers.  A
node encloses its children if their spans tile one part of its own span in the
order of the child list and leave at least the last number free.  If all nodes
do, then one span contains another exactly if its node is above the other's.
A chain of the tree is tight if little of each span is spent beside the chain;
then the spans along the chain stay wide.
-/

namespace Htnd.Lib.SpanTree

open Relation Lib.RootedTree List

universe u

variable {α : Type u}

/-- The numbers from the lower end up to, and without, the upper end. -/
@[ext]
structure Span where
  lo : Nat
  hi : Nat
deriving DecidableEq

def Span.width (span : Span) : Nat := span.hi - span.lo

/-! ## Tilings -/

/-- The spans of the nodes follow each other from the start to the stop. -/
def Tiles (span : α → Span) : Nat → List α → Nat → Prop
  | start, [], stop => start = stop
  | start, node :: rest, stop =>
    (span node).lo = start ∧ start ≤ (span node).hi ∧ Tiles span (span node).hi rest stop

variable {span span' : α → Span} {start stop : Nat} {nodes rest : List α} {node : α}

theorem tiles_append : Tiles span start (nodes ++ rest) stop ↔
      ∃ middle, Tiles span start nodes middle ∧ Tiles span middle rest stop := by
  induction nodes generalizing start with
  | nil =>
    constructor
    · exact fun tiles => ⟨start, rfl, tiles⟩
    · rintro ⟨middle, rfl, tiles⟩
      exact tiles
  | cons node nodes ih =>
    simp only [cons_append, Tiles, ih]
    constructor
    · rintro ⟨atStart, upward, middle, first, second⟩
      exact ⟨middle, ⟨atStart, upward, first⟩, second⟩
    · rintro ⟨middle, ⟨atStart, upward, first⟩, second⟩
      exact ⟨atStart, upward, middle, first, second⟩

namespace Tiles

section

variable (tiles : Tiles span start nodes stop)

include tiles

theorem le : start ≤ stop := by
  induction nodes generalizing start with
  | nil => exact le_of_eq tiles
  | cons node nodes ih => exact tiles.2.1.trans (ih tiles.2.2)

theorem bounds (mem : node ∈ nodes) : start ≤ (span node).lo ∧ (span node).lo ≤ (span node).hi ∧
    (span node).hi ≤ stop := by
  rcases append_of_mem mem with ⟨_, _, rfl⟩
  rcases tiles_append.mp tiles with ⟨_, first, atMiddle, upward, last⟩
  rw [atMiddle]
  exact ⟨first.le, upward, last.le⟩

theorem congr (same : ∀ node ∈ nodes, span' node = span node) : Tiles span' start nodes stop := by
  induction nodes generalizing start with
  | nil => exact tiles
  | cons node nodes ih =>
    rw [Tiles, same node mem_cons_self]
    exact ⟨tiles.1, tiles.2.1, ih tiles.2.2 fun other mem => same other (.tail node mem)⟩

theorem shift_up {offset : Nat} (shifted : ∀ node ∈ nodes, span' node =
      ⟨(span node).lo + offset, (span node).hi + offset⟩) :
    Tiles span' (start + offset) nodes (stop + offset) := by
  induction nodes generalizing start with
  | nil => exact congrArg (· + offset) tiles
  | cons node nodes ih =>
    rw [Tiles, shifted node mem_cons_self]
    exact ⟨congrArg (· + offset) tiles.1, Nat.add_le_add_right tiles.2.1 offset, ih tiles.2.2
      fun other mem => shifted other (.tail node mem)⟩

theorem shift_down {offset : Nat} (shifted : ∀ node ∈ nodes, span' node =
      ⟨(span node).lo - offset, (span node).hi - offset⟩) :
    Tiles span' (start - offset) nodes (stop - offset) := by
  induction nodes generalizing start with
  | nil => exact congrArg (· - offset) tiles
  | cons node nodes ih =>
    rw [Tiles, shifted node mem_cons_self]
    exact ⟨congrArg (· - offset) tiles.1, Nat.sub_le_sub_right tiles.2.1 offset, ih tiles.2.2
      fun other mem => shifted other (.tail node mem)⟩

theorem pairwise : nodes.Pairwise fun first second => (span first).hi ≤ (span second).lo := by
  induction nodes generalizing start with
  | nil => exact List.Pairwise.nil
  | cons node nodes ih =>
    exact List.Pairwise.cons (fun _ mem => (tiles.2.2.bounds mem).1) (ih tiles.2.2)

/-- Different nodes of a tiling have disjoint spans. -/
theorem apart {first second : α} (isFirst : first ∈ nodes) (isSecond : second ∈ nodes)
    (ne : first ≠ second) : (span first).hi ≤ (span second).lo ∨
    (span second).hi ≤ (span first).lo := by
  rcases append_of_mem isFirst with ⟨_, _, rfl⟩
  rcases tiles_append.mp tiles with ⟨_, left, atMiddle, -, right⟩
  rcases mem_append.mp isSecond with inBefore | inAfter
  · right
    rw [atMiddle]
    exact (left.bounds inBefore).2.2
  · left
    rcases mem_cons.mp inAfter with same | inAfter
    · exact absurd same.symm ne
    · exact (right.bounds inAfter).1

theorem sum_width : start + (nodes.map fun node => (span node).width).sum = stop := by
  induction nodes generalizing start with
  | nil => exact tiles
  | cons node nodes ih =>
    have rest := ih tiles.2.2
    have upward := tiles.2.1
    have atStart := tiles.1
    rw [map_cons, sum_cons, Span.width]
    omega

/-- The ends of a tiling are determined by its spans. -/
theorem ends_unique {start' stop' : Nat} (other : Tiles span start' nodes stop')
    (nonempty : nodes ≠ []) : start = start' ∧ stop = stop' := by
  induction nodes generalizing start start' with
  | nil => exact absurd rfl nonempty
  | cons node nodes ih =>
    refine ⟨tiles.1.symm.trans other.1, ?_⟩
    cases nodes with
    | nil => exact tiles.2.2.symm.trans other.2.2
    | cons next nodes => exact (ih tiles.2.2 other.2.2 (cons_ne_nil next nodes)).2

end

end Tiles

/-! ## Enclosing -/

variable {children : α → List α} {parent : α → Option α} {root : α} {upper lower child : α}

/-- The children tile a part of the node's span and leave its end free. -/
def Encloses (span : α → Span) (children : α → List α) (node : α) : Prop :=
  ∃ start stop, (span node).lo ≤ start ∧
    Tiles span start (children node) stop ∧ stop < (span node).hi

theorem Encloses.nonempty (encloses : Encloses span children node) :
    (span node).lo < (span node).hi := by
  rcases encloses with ⟨_, _, floor, tiles, below⟩
  exact (floor.trans tiles.le).trans_lt below

theorem Encloses.child_within (encloses : Encloses span children node)
    (mem : child ∈ children node) :
    (span node).lo ≤ (span child).lo ∧ (span child).hi < (span node).hi := by
  rcases encloses with ⟨_, _, floor, tiles, below⟩
  have bounds := tiles.bounds mem
  exact ⟨floor.trans bounds.1, bounds.2.2.trans_lt below⟩

theorem Encloses.congr (encloses : Encloses span children node) (sameNode : span' node = span node)
    (alike : ∀ child ∈ children node, span' child = span child) : Encloses span' children node := by
  rcases encloses with ⟨start, stop, floor, tiles, below⟩
  rw [← sameNode] at floor below
  exact ⟨start, stop, floor, tiles.congr alike, below⟩

theorem encloses_leaf (isLeaf : children node = []) (nonempty : (span node).lo < (span node).hi) :
    Encloses span children node := by
  refine ⟨(span node).lo, (span node).lo, le_rfl, ?_, nonempty⟩
  rw [isLeaf]
  rfl

/-- The first span contains the second. -/
def Span.Contains (first second : Span) : Prop := first.lo ≤ second.lo ∧ second.hi ≤ first.hi

theorem contains_of_below (encloses : ∀ node, Below children upper node → children node ≠ [] →
    Encloses span children node) (below : Below children upper lower) :
    (span upper).Contains (span lower) := by
  induction below with
  | refl => exact ⟨le_rfl, le_rfl⟩
  | @tail middle lower path mem ih =>
    have within := (encloses middle path (ne_nil_of_mem mem)).child_within mem
    exact ⟨ih.1.trans within.1, within.2.le.trans ih.2⟩

/-- One span contains another exactly if its node is above the other's. -/
theorem below_iff (encloses : ∀ node, Below children root node → children node ≠ [] →
    Encloses span children node) (upperIn : Below children root upper)
    (lowerIn : Below children root lower) (nonempty : (span lower).lo < (span lower).hi) :
    Below children upper lower ↔ (span upper).Contains (span lower) := by
  constructor
  · intro below
    exact contains_of_below (fun node under => encloses node (upperIn.trans under)) below
  · intro contains
    have descend : ∀ above, Below children above upper →
        Below children root above → Below children above lower → Below children upper lower := by
      intro above path
      induction path using ReflTransGen.head_induction_on with
      | refl => exact fun _ below => below
      | @head above next mem rest ih =>
        intro aboveIn toLower
        have enclosed := encloses above aboveIn (ne_nil_of_mem mem)
        have toUpper := contains_of_below (fun node under => encloses node
            ((aboveIn.trans (.of_child mem)).trans under)) rest
        have within := enclosed.child_within mem
        rcases toLower.cases_child with rfl | ⟨other, otherMember, path⟩
        · have bound := contains.2.trans toUpper.2
          exact absurd (bound.trans_lt within.2) (lt_irrefl _)
        by_cases same : next = other
        · rw [← same] at path
          exact ih (aboveIn.trans (.of_child mem)) path
        have toOther := contains_of_below (fun node under => encloses node
            ((aboveIn.trans (.of_child otherMember)).trans under)) path
        rcases enclosed with ⟨_, _, -, tiles, -⟩
        have within := contains.1
        have within' := contains.2
        have lowest := toUpper.1
        have highest := toUpper.2
        have lowest' := toOther.1
        have highest' := toOther.2
        rcases tiles.apart mem otherMember same with apart | apart
        · omega
        · omega
    exact descend root upperIn (.refl root) lowerIn

/-- A node that encloses all the way down has room for its size. -/
theorem size_le_width (tree : Rooted children parent root) (inTree : Below children root node)
    (encloses : ∀ lower, Below children node lower → Encloses span children lower) :
    size children node ≤ (span node).width := by
  revert encloses
  refine tree.induction_from_leaves (motive := fun node => (∀ lower, Below children node lower →
    Encloses span children lower) → size children node ≤ (span node).width) ?_ inTree
  intro node _ ih encloses
  have room : ∀ child ∈ children node, size children child ≤ (span child).width := by
    intro child mem
    refine ih child mem fun lower under => encloses lower ?_
    exact (Below.of_child mem).trans under
  rcases encloses node (Below.refl node) with ⟨_, _, _, tiles, _⟩
  have sizes := sum_le_sum room
  have widths := tiles.sum_width
  rw [tree.size_eq node, Span.width]
  omega

/-! ## Tight chains -/

/-- The numbers of a node before its first and after its last child. -/
def Gaps (span : α → Span) (children : α → List α) (node : α) (before after : Nat) : Prop :=
  ∃ stop, Tiles span ((span node).lo + before) (children node) stop ∧
    stop + 1 + after = (span node).hi

variable {before after : Nat}

theorem Gaps.encloses (gaps : Gaps span children node before after) :
    Encloses span children node := by
  rcases gaps with ⟨stop, tiles, _⟩
  exact ⟨_, stop, Nat.le_add_right _ _, tiles, by omega⟩

theorem Gaps.congr (gaps : Gaps span children node before after) (sameNode : span' node = span node)
    (alike : ∀ child ∈ children node, span' child = span child) :
    Gaps span' children node before after := by
  rcases gaps with ⟨stop, tiles, atEnd⟩
  rw [← sameNode] at tiles atEnd
  exact ⟨stop, tiles.congr alike, atEnd⟩

/-- The gaps of a node with children are determined by the spans. -/
theorem Gaps.unique (gaps : Gaps span children node before after)
    {before' after' : Nat} (other : Gaps span children node before' after')
    (inner : children node ≠ []) : before = before' ∧ after = after' := by
  rcases gaps with ⟨_, tiles, _⟩
  rcases other with ⟨_, tiles', _⟩
  have ends := tiles.ends_unique tiles' inner
  omega

/--
Beside the chain to the target the children of the node take at most the slack
for each node under them.
-/
def NarrowBeside (span : α → Span) (children : α → List α) (slack : Nat) (target node : α) : Prop :=
  ∀ child ∈ children node, ¬ Below children child target →
    (span child).width ≤ slack * size children child

/-- Both gaps of the node are at most the slack, and it is narrow beside. -/
def Tight (span : α → Span) (children : α → List α) (slack : Nat) (target node : α) : Prop :=
  (∃ before after, Gaps span children node before after ∧ before ≤ slack ∧ after ≤ slack) ∧
    NarrowBeside span children slack target node

variable {slack : Nat} {target : α}

theorem NarrowBeside.congr (narrow : NarrowBeside span children slack target node)
    (alike : ∀ child ∈ children node, span' child = span child) :
    NarrowBeside span' children slack target node := by
  intro child mem besides
  rw [alike child mem]
  exact narrow child mem besides

theorem Tight.congr (tight : Tight span children slack target node)
    (sameNode : span' node = span node) (alike : ∀ child ∈ children node,
    span' child = span child) : Tight span' children slack target node := by
  rcases tight with ⟨⟨before, after, gaps, bounds⟩, narrow⟩
  exact ⟨⟨before, after, gaps.congr sameNode alike, bounds⟩, narrow.congr alike⟩

theorem sum_width_le (nodes : List α) (others : ∀ child ∈ nodes,
      (span child).width ≤ slack * size children child) :
    (nodes.map fun child => (span child).width).sum ≤ slack * (nodes.map (size children)).sum := by
  rw [← sum_map_mul_left]
  exact sum_le_sum others

/-- What a tight node spends beside the next node of the chain. -/
theorem Tight.width_le (tree : Rooted children parent root)
    (tight : Tight span children slack target node) (mem : child ∈ children node)
    (onChain : Below children child target) :
    (span node).width + slack * (size children child + 1) ≤ (span child).width + slack * size
    children node + 2 * slack + 1 := by
  rcases tight with ⟨⟨_, _, ⟨_, tiles, _⟩, _, _⟩, narrow⟩
  have sizes := tree.size_eq node
  have distinct := tree.nodup node
  have offChain : ∀ other ∈ children node, other ≠ child →
      (span other).width ≤ slack * size children other := by
    intro other isIn ne
    refine narrow other isIn fun below => ne ?_
    exact tree.child_unique isIn mem below onChain
  rcases append_of_mem mem with ⟨before, after, split⟩
  rw [split] at sizes distinct offChain tiles
  have beforeWidths := sum_width_le before fun other isIn =>
    offChain other (mem_append_left _ isIn) (by
      rintro rfl
      exact (nodup_append.mp distinct).2.2 other isIn other (.head _) rfl)
  have afterWidths := sum_width_le after fun other isIn =>
    offChain other (mem_append_right _ (.tail child isIn)) (by
      rintro rfl
      exact (nodup_cons.mp (nodup_append.mp distinct).2.1).1 isIn)
  have widths := tiles.sum_width
  rw [map_append, sum_append, map_cons, sum_cons] at widths sizes
  rw [sizes]
  have total : (span node).width ≤ 2 * slack + 1 + (slack * (before.map (size children)).sum +
      ((span child).width + slack * (after.map (size children)).sum)) := by
    rw [Span.width]
    omega
  calc (span node).width + slack * (size children child + 1) ≤ 2 * slack + 1 +
          (slack * (before.map (size children)).sum + ((span child).width +
            slack * (after.map (size children)).sum)) +
          slack * (size children child + 1) :=
        Nat.add_le_add_right total _
    _ = (span child).width + slack * ((before.map (size children)).sum +
            (size children child + (after.map (size children)).sum) + 1) + 2 * slack + 1 := by ring

/-- Along a tight chain the spans lose little against the root's. -/
theorem width_of_tight (tree : Rooted children parent root)
    (tight : ∀ node, Below children node target → node ≠ target → Below children root node →
    Tight span children slack target node) (inTree : Below children root node)
    (onChain : Below children node target) : (span root).width + (3 * slack + 1) * size children
    node ≤ (span node).width + (3 * slack + 1) * size children root := by
  induction inTree with
  | refl => exact le_rfl
  | @tail above node path mem ih =>
    have aboveOn := (Below.of_child mem).trans onChain
    have ne : above ≠ target := by
      rintro rfl
      exact tree.not_below mem onChain
    have step := (tight above aboveOn ne path).width_le tree mem onChain
    have smaller := tree.size_child_lt mem
    have before := ih aboveOn
    rcases Nat.exists_eq_add_of_lt smaller with ⟨extra, isSize⟩
    rw [isSize] at step before
    have scaled : slack * (size children node + extra + 1) =
        slack * (size children node + 1) + slack * extra := by ring
    have scaled' : (3 * slack + 1) * (size children node + extra + 1) = (3 * slack + 1) * size
        children node + 3 * (slack * extra) + extra + 3 * slack + 1 := by ring
    omega

end Htnd.Lib.SpanTree
