import Htnd.Lib.SpanTree

/-!
# The order of unrelated nodes

Of two nodes of a tree neither of which is above the other, one comes first:
their paths part at some node, and the child lists are ordered.  Where spans
are enclosed all the way down, the node that comes first has its span before
that of the other one, so the order of unrelated spans never changes while a
tree keeps its shape or grows new leaves.
-/

namespace Htnd.Lib.TreeOrder

open Relation Lib.RootedTree SpanTree List

universe u

variable {α : Type u} {children children' : α → List α}
  {parent parent' : α → Option α} {root first second : α} {span : α → Span}

/-- The paths to the two nodes part, and the first one's child comes first. -/
def Precedes (children : α → List α) (first second : α) : Prop :=
  ∃ node left right, [left, right].Sublist (children node) ∧
    Below children left first ∧ Below children right second

/-- Two different members of a list stand in it in one order. -/
theorem sublist_of_mem {nodes : List α} {left right : α}
    (isLeft : left ∈ nodes) (isRight : right ∈ nodes) (ne : left ≠ right) :
    [left, right].Sublist nodes ∨ [right, left].Sublist nodes := by
  rcases append_of_mem isLeft with ⟨front, back, rfl⟩
  rcases mem_append.mp isRight with inFront | inBack
  · right
    exact (singleton_sublist.mpr inFront).append (singleton_sublist.mpr (.head _))
  left
  have inTail : right ∈ back := (mem_cons.mp inBack).resolve_left (Ne.symm ne)
  exact List.Sublist.trans (List.Sublist.cons_cons left (singleton_sublist.mpr inTail))
    (sublist_append_right front (left :: back))

theorem Precedes.newLeaf {node leaf : α} (new : NewLeaf children children' parent parent' root node
    leaf) (precedes : Precedes children first second) : Precedes children' first second := by
  rcases precedes with ⟨above, left, right, inOrder, toFirst, toSecond⟩
  refine ⟨above, left, right, ?_, new.below_of_below toFirst, new.below_of_below toSecond⟩
  by_cases isNode : above = node
  · rw [isNode] at inOrder ⊢
    rw [new.atNode]
    exact inOrder.trans (sublist_append_left _ _)
  · rw [new.elsewhere above isNode]
    exact inOrder

/-- Of two unrelated nodes one comes first. -/
theorem precedes_total (firstIn : Below children root first) (secondIn : Below children root second)
    (notAbove : ¬ Below children first second) (notBelow : ¬ Below children second first) :
    Precedes children first second ∨ Precedes children second first := by
  have descend : ∀ above, Below children above first → Below children above second →
      Precedes children first second ∨ Precedes children second first := by
    intro above path
    induction path using ReflTransGen.head_induction_on with
    | refl => exact fun toSecond => absurd toSecond notAbove
    | @head above next mem rest ih =>
      intro toSecond
      rcases toSecond.cases_child with same | ⟨other, isIn, toSecond⟩
      · rw [same] at mem
        exact absurd ((Below.of_child mem).trans rest) notBelow
      by_cases same : next = other
      · rw [← same] at toSecond
        exact ih toSecond
      · rcases sublist_of_mem mem isIn same with inOrder | inOrder
        · exact .inl ⟨above, next, other, inOrder, rest, toSecond⟩
        · exact .inr ⟨above, other, next, inOrder, toSecond, rest⟩
  exact descend root firstIn secondIn

/-- The node that comes first has its span before the other's. -/
theorem Precedes.apart (tree : Rooted children parent root)
    (encloses : ∀ node, Below children root node → children node ≠ [] → Encloses span children node)
    (precedes : Precedes children first second) : (span first).hi ≤ (span second).lo := by
  rcases precedes with ⟨above, left, right, inOrder, toFirst, toSecond⟩
  have isLeft : left ∈ children above := inOrder.subset (by simp)
  have isRight : right ∈ children above := inOrder.subset (by simp)
  have within : ∀ child ∈ children above, ∀ lower,
      Below children child lower → (span child).Contains (span lower) := by
    intro child mem lower below
    refine contains_of_below (fun node under => encloses node ?_) below
    exact (tree.rooted mem).trans ((Below.of_child mem).trans under)
  rcases encloses above (tree.rooted isLeft) (ne_nil_of_mem isLeft) with ⟨_, _, -, tiles, -⟩
  have apart := tiles.pairwise.sublist inOrder
  simp only [pairwise_cons, mem_singleton, forall_eq] at apart
  calc (span first).hi ≤ (span left).hi := (within left isLeft first toFirst).2
    _ ≤ (span right).lo := apart.1
    _ ≤ (span second).lo := (within right isRight second toSecond).1

end Htnd.Lib.TreeOrder
