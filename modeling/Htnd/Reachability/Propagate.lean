import Htnd.Reachability.Outcome
import Htnd.Reachability.Subtrees

/-!
# Handing out an interval to a subtree

`propagateInterval` splits the interval of a node among its children by their
subtree sizes and goes on with the children.  A node in the queue has room for
its subtree, and a node that does not enclose its children is under one in the
queue; so when the queue is empty all nodes of the subtree enclose theirs.
Only spans strictly under the starting node change.
-/

namespace Htnd.Reachability.Propagate

open Lib.Fallible Lib.RangeLoops Lib.RootedTree Lib.SpanTree Utxo.Entry List
open Reachability.Interval Reachability.Tree Reindex Shape Outcome Subtrees
  Function

/-- The span lies where no end wraps around, and has room for the size. -/
structure Roomy (span : Span) (size : Nat) : Prop where
  positive : 1 ≤ span.lo
  limit : span.hi < 2 ^ 64
  room : size ≤ span.width

/-- A reindex context of a given shape, with right cached sizes. -/
structure ContextOk (shape : TreeShape) (rc : ReindexContext) : Prop where
  isShape : shapeOf rc.store = shape
  cached : SizesCached shape.children rc.subTreeSizesCache

/--
The spans strictly under a node were rewritten, and all nodes of its subtree
enclose their children.
-/
structure Rewritten (children : DomainHash → List DomainHash)
    (node : DomainHash) (span span' : DomainHash → Span) : Prop where
  outside : ∀ other, (Below children node other → other = node) → span' other = span other
  encloses : ∀ other, Below children node other → Encloses span' children other

variable {shape : TreeShape} {genesis node : DomainHash} {store store' : ReachabilityDataStore}

/-! ## Staging the intervals of the children -/

variable {children : List DomainHash} {spans : List ReachabilityInterval}

theorem stageIntervals_ok (nodup : children.Nodup) (lengthEq : children.length = spans.length)
    (isOk : stageIntervals store children spans = .ok store') : shapeOf store' = shapeOf store ∧
    (∀ other, other ∉ children → spanOf store' other = spanOf store other) ∧
    List.Forall₂ (fun child interval => spanOf store' child = interval.span) children spans := by
  induction children generalizing store spans with
  | nil =>
    cases isOk
    cases spans with
    | nil => exact ⟨rfl, fun _ _ => rfl, .nil⟩
    | cons interval spans => cases lengthEq
  | cons child children ih =>
    cases spans with
    | nil => cases lengthEq
    | cons interval spans =>
      rw [nodup_cons] at nodup
      rcases ok_of_bind isOk with ⟨_, stages, rest⟩
      rcases stageInterval_ok stages with ⟨middleShape, middleSpan⟩
      rcases ih nodup.2 (Nat.succ.inj lengthEq) rest with ⟨restShape, kept, staged⟩
      refine ⟨restShape.trans middleShape, ?_, ?_⟩
      · intro other notMember
        rw [mem_cons, not_or] at notMember
        rw [kept other notMember.2, middleSpan, update_of_ne notMember.1]
      · refine .cons ?_ staged
        rw [kept child nodup.1, middleSpan, update_self]

variable {span : DomainHash → Span}

theorem tiles_of_staged {start stop : Nat}
    (staged : List.Forall₂ (fun child interval => span child = interval.span) children spans)
    (tiles : Tiles ReachabilityInterval.span start spans stop) :
    Tiles span start children stop := by
  induction staged generalizing start with
  | nil => exact tiles
  | cons same _ ih =>
    rw [Tiles, same]
    exact ⟨tiles.1, tiles.2.1, ih tiles.2.2⟩

/-- A property that relates sizes and staged intervals, for one child. -/
theorem room_of_staged {count : DomainHash → Nat} {sizes : List UInt64}
    (areSizes : sizes.map UInt64.toNat = children.map count)
    (staged : List.Forall₂ (fun child interval => span child = interval.span) children spans)
    (room : List.Forall₂ (fun size interval => size.toNat ≤ interval.span.width) sizes spans)
    {child : DomainHash} (mem : child ∈ children) : count child ≤ (span child).width := by
  induction staged generalizing sizes with
  | nil => cases mem
  | @cons first interval children spans same _ ih =>
    cases room with
    | @cons size _ sizes _ enough room =>
      rw [map_cons, map_cons, List.cons.injEq] at areSizes
      rcases mem_cons.mp mem with rfl | mem
      · rw [same, ← areSizes.1]
        exact enough
      · exact ih areSizes.2 room mem

/-! ## The queue loop -/

variable {interval : ReachabilityInterval}

section Loop

variable (manager : ReachabilityManager) (tree : shape.Rooted genesis)

include tree

variable {here : DomainHash} {queue : List DomainHash}

variable {sizes : FiniteMap DomainHash UInt64}

/-- One round: the children tile what the node can give them. -/
theorem handOut_eq (isShape : shapeOf store = shape) (cached : SizesCached shape.children sizes)
    (roomy : Roomy (spanOf store here) (size shape.children here))
    (hit : (sizes.lookup here).isSome) (inner : shape.children here ≠ [])
    (range : store.intervalRangeForChildAllocation here = .ok interval) : ∃ spans,
    intervalSplitWithExponentialBias manager.roundedShares interval
    ((shape.children here).map (cachedSize sizes)) = .ok spans ∧ ∀ store',
    stageIntervals store (shape.children here) spans = .ok store' → shapeOf store' = shape ∧
    (∀ other, other ∉ shape.children here → spanOf store' other = spanOf store other) ∧
    Tiles (spanOf store') (spanOf store here).lo (shape.children here)
    ((spanOf store here).hi - 1) ∧ ∀ child ∈ shape.children here, Roomy (spanOf store' child)
    (size shape.children child) := by
  have areSizes := cached.map_cachedSize (cached.closed here hit)
  have sizeIs := tree.size_eq here
  have pos := roomy.positive
  have limit := roomy.limit
  have room := roomy.room
  rw [Span.width] at room
  have isRange := intervalRange_ok (by omega) range
  rcases intervalSplitWithExponentialBias_eq manager.roundedShares
    (fun isNil => inner (map_eq_nil_iff.mp isNil)) (by rw [isRange]; exact pos)
    (by rw [isRange]; dsimp only; omega) (by rw [isRange]; dsimp only; omega)
    (by rw [areSizes, isRange, Span.width]; dsimp only; omega) with ⟨spans, splits, tiles, rooms⟩
  refine ⟨spans, splits, fun store' stages => ?_⟩
  rw [isRange] at tiles
  have lengthEq := rooms.length_eq
  rw [length_map] at lengthEq
  rcases stageIntervals_ok (tree.nodup here) lengthEq stages with ⟨sameShape, kept, staged⟩
  have placed : Tiles (spanOf store') (spanOf store here).lo
      (shape.children here) ((spanOf store here).hi - 1) := tiles_of_staged staged tiles
  refine ⟨sameShape.trans isShape, kept, placed, ?_⟩
  intro child mem
  have bounds := placed.bounds mem
  exact ⟨pos.trans bounds.1, by omega, room_of_staged areSizes staged rooms mem⟩

/-- Nodes that do not enclose their children are under the queue. -/
def Covered (children : DomainHash → List DomainHash) (node : DomainHash)
    (queue : List DomainHash) (span : DomainHash → Span) : Prop :=
  ∀ other, Below children node other → Encloses span children other ∨ ∃ next ∈ queue,
    Below children next other

theorem Covered.dequeue_children {span' : DomainHash → Span}
    (covered : Covered shape.children node (here :: queue) span)
    (encloses : Encloses span' shape.children here)
    (kept : ∀ other, other ∉ shape.children here → span' other = span other) :
    Covered shape.children node (queue ++ shape.children here) span' := by
  intro other below
  by_cases isChild : other ∈ shape.children here
  · exact .inr ⟨other, mem_append_right queue isChild, .refl other⟩
  by_cases isCurrent : other = here
  · rw [isCurrent]
    exact .inl encloses
  rcases covered other below with enclosed | ⟨next, isNext, under⟩
  · refine .inl (enclosed.congr (kept other isChild) ?_)
    intro child mem
    refine kept child fun otherMember => isCurrent ?_
    exact tree.parent_unique mem otherMember
  rcases mem_cons.mp isNext with rfl | isNext
  · rcases under.cases_child with same | ⟨child, mem, path⟩
    · exact absurd same.symm isCurrent
    · exact .inr ⟨child, mem_append_right queue mem, path⟩
  · exact .inr ⟨next, mem_append_left _ isNext, under⟩

omit tree in
theorem Covered.rewritten {children : DomainHash → List DomainHash}
    (covered : Covered children node [] span) : Rewritten children node span span where
  outside _ _ := rfl
  encloses other below := by
    rcases covered other below with encloses | ⟨_, isNext, -⟩
    · exact encloses
    · cases isNext

/-- The queue loop rewrites the subtree of its starting node. -/
theorem propagateQueue_meets (nodeIn : shape.Below genesis node)
    (cached : SizesCached shape.children sizes) (rounds : Nat) (isShape : shapeOf store = shape)
    (queued : ∀ next ∈ queue, shape.Below node next ∧ (sizes.lookup next).isSome ∧
    Roomy (spanOf store next) (size shape.children next))
    (covered : Covered shape.children node queue (spanOf store)) :
    Meets (fun store' => shapeOf store' = shape ∧ Rewritten shape.children node (spanOf store)
    (spanOf store')) (propagateQueue manager sizes rounds queue store) := by
  fun_induction propagateQueue manager sizes rounds queue store with
  | case1 => exact ⟨isShape, covered.rewritten⟩
  | case2 => exact not_false
  | case3 rounds here queue store ih ihChildren =>
    refine (harmless_children store here).read fun _ reads => ?_
    rw [← children_ok isShape reads]
    rcases queued here (.head _) with ⟨currentBelow, hit, roomy⟩
    have restQueued := fun next isNext => queued next (.tail here isNext)
    have upward : (spanOf store here).lo < (spanOf store here).hi := by
      have pos := tree.size_pos (nodeIn.trans currentBelow)
      have room := roomy.room
      rw [Span.width] at room
      omega
    split_ifs with isLeaf
    · refine ih isShape restQueued fun other below => ?_
      rcases covered other below with encloses | ⟨next, isNext, under⟩
      · exact .inl encloses
      rcases mem_cons.mp isNext with rfl | isNext
      · rcases under.cases_child with rfl | ⟨_, mem, -⟩
        · exact .inl (encloses_leaf isLeaf upward)
        · rw [isLeaf] at mem
          cases mem
      · exact .inr ⟨next, isNext, under⟩
    refine (harmless_intervalRange store here).read fun _ range => ?_
    rcases handOut_eq manager tree isShape cached roomy hit
      isLeaf range with ⟨spans, splits, handsOut⟩
    rw [ok_bind splits]
    refine (harmless_stageIntervals store _ spans).read fun middle stages => ?_
    rcases handsOut middle stages with ⟨middleShape, kept, tiles, roomyChildren⟩
    have notOwnChild : here ∉ shape.children here := fun mem => tree.child_ne mem rfl
    have encloses : Encloses (spanOf middle) shape.children here := by
      refine ⟨_, _, ?_, tiles, ?_⟩
      · rw [kept here notOwnChild]
      · rw [kept here notOwnChild]
        omega
    have nextQueued : ∀ next ∈ queue ++ shape.children here, shape.Below node next ∧
        (sizes.lookup next).isSome ∧ Roomy (spanOf middle next) (size shape.children next) := by
      intro next isNext
      by_cases isChild : next ∈ shape.children here
      · exact ⟨currentBelow.trans (.of_child isChild), cached.closed here hit next isChild,
          roomyChildren next isChild⟩
      · rw [kept next isChild]
        exact restQueued next ((mem_append.mp isNext).resolve_right isChild)
    refine (ihChildren _ _ middleShape nextQueued
      (covered.dequeue_children tree encloses kept)).imp ?_
    rintro _ ⟨lastShape, rewritten⟩
    refine ⟨lastShape, ?_, rewritten.encloses⟩
    intro other beyond
    rw [rewritten.outside other beyond]
    refine kept other fun mem => ?_
    have under := currentBelow.trans (.of_child mem)
    rw [beyond under] at mem
    exact tree.not_below mem currentBelow

end Loop

/-! ## Propagation -/

section Propagation

variable {manager : ReachabilityManager} {rounds : Nat} {rc : ReindexContext}
  (tree : shape.Rooted genesis) (bound : size shape.children genesis < 2 ^ 64)

include tree bound

theorem propagateInterval_meets (ok : ContextOk shape rc) (nodeIn : shape.Below genesis node)
    (roomy : Roomy (spanOf rc.store node) (size shape.children node)) :
    Meets (fun rc' => ContextOk shape rc' ∧ Rewritten shape.children node (spanOf rc.store)
    (spanOf rc'.store)) (propagateInterval manager rounds rc node) := by
  refine (harmless_countSubtrees rounds rc node).read fun _ counts => ?_
  rcases countSubtrees_ok tree bound ok.isShape nodeIn ok.cached counts with ⟨same, cached, hit⟩
  have covered : Covered shape.children node [node] (spanOf rc.store) :=
    fun _ below => .inr ⟨node, .head _, below⟩
  rw [same]
  refine .bind (propagateQueue_meets manager tree nodeIn cached rounds ok.isShape ?_ covered) ?_
  · intro _ isNext
    rw [mem_singleton.mp isNext]
    exact ⟨.refl node, hit, roomy⟩
  · rintro _ ⟨sameShape, rewritten⟩
    exact ⟨⟨sameShape, cached⟩, rewritten⟩

/-- A new span for a node, handed out to its subtree. -/
structure Replaced (children : DomainHash → List DomainHash)
    (node : DomainHash) (new : Span) (span span' : DomainHash → Span) : Prop where
  atNode : span' node = new
  outside : ∀ other, ¬ Below children node other → span' other = span other
  encloses : ∀ other, Below children node other → Encloses span' children other

theorem stageSpan_meets (ok : ContextOk shape rc) (nodeIn : shape.Below genesis node)
    (roomy : Roomy interval.span (size shape.children node)) :
    Meets (fun rc' => ContextOk shape rc' ∧ Replaced shape.children node interval.span
    (spanOf rc.store) (spanOf rc'.store)) (stageAndPropagate manager rounds rc node interval) := by
  refine (harmless_stage rc.store node interval).read fun store' stages => ?_
  rcases stageInterval_ok stages with ⟨sameShape, newSpan⟩
  have atNode : spanOf store' node = interval.span := by rw [newSpan, update_self]
  have staged : ContextOk shape { rc with store := store' } :=
    ⟨sameShape.trans ok.isShape, ok.cached⟩
  rw [← atNode] at roomy
  refine (propagateInterval_meets tree bound staged nodeIn roomy).imp ?_
  rintro rc' ⟨ok', rewritten⟩
  refine ⟨ok', ?_, ?_, rewritten.encloses⟩
  · rw [rewritten.outside node fun _ => rfl]
    exact atNode
  · intro other notBelow
    rw [rewritten.outside other fun below => absurd below notBelow]
    rw [newSpan, update_of_ne]
    rintro rfl
    exact notBelow (.refl other)

end Propagation

end Htnd.Reachability.Propagate
