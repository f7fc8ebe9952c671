import Htnd.Reachability.Invariant

/-!
# Shifting the siblings of a chain node

When a node of the chain to the reindex root gives up some numbers on one
side, its siblings on that side are moved over them.  If the node that needs
room is among these siblings, the ones between move and it grows by what was
given up; otherwise all of them move and the gap of the parent on that side
grows.
-/

namespace Htnd.Reachability.Offset

open Lib.RootedTree Lib.SpanTree Utxo.Entry Reachability.Interval Reindex List
open Shape Outcome Propagate Invariant

/-! ## The two sides -/

inductive Side where
  | before
  | after

namespace Side

/-- The functions the code uses on a side. -/
def reclaim : Side → ReclaimSide
  | before => sideBefore
  | after => sideAfter

/-- The span of a node that gives up numbers on the side. -/
def shrunk : Side → Span → Nat → Span
  | before, span, offset => ⟨span.lo + offset, span.hi⟩
  | after, span, offset => ⟨span.lo, span.hi - offset⟩

/-- The span of a sibling on the side that moves over them. -/
def moved : Side → Span → Nat → Span
  | before, span, offset => ⟨span.lo + offset, span.hi + offset⟩
  | after, span, offset => ⟨span.lo - offset, span.hi - offset⟩

/-- The span of a sibling on the side that takes them. -/
def grown : Side → Span → Nat → Span
  | before, span, offset => ⟨span.lo, span.hi + offset⟩
  | after, span, offset => ⟨span.lo - offset, span.hi⟩

/-- A sibling can move or grow by the offset without wrapping around. -/
def Free : Side → Span → Nat → Prop
  | before, span, offset => span.hi + offset < 2 ^ 64
  | after, span, offset => offset < span.lo

/-- The gaps of a node on the side and on the other one. -/
def SideGaps (side : Side) (span : DomainHash → Span)
    (children : DomainHash → List DomainHash) (node : DomainHash) (own other : Nat) : Prop :=
  match side with
  | before => Gaps span children node own other
  | after => Gaps span children node other own

variable {side : Side} {ri : ReachabilityInterval} {offset : UInt64}

theorem span_shrink (limit : ri.span.hi < 2 ^ 64) (less : offset.toNat < ri.span.width) :
    (side.reclaim.shrink ri offset).span = side.shrunk ri.span offset.toNat := by
  rw [Span.width] at less
  cases side with
  | before =>
    have fits : ri.span.lo + offset.toNat < 2 ^ 64 := by omega
    exact span_eq (toNat_add_of_lt fits) rfl
  | after => exact span_intervalDecreaseEnd (by omega)

theorem span_move (free : side.Free ri.span offset.toNat) (nonempty : ri.span.lo < ri.span.hi) :
    (side.reclaim.move ri offset).span = side.moved ri.span offset.toNat := by
  cases side with
  | before =>
    have atEnd := congrArg Span.hi (span_intervalIncreaseEnd free)
    exact span_eq (toNat_add_of_lt ((Nat.add_le_add_right nonempty.le _).trans_lt free)) atEnd
  | after =>
    have atEnd := congrArg Span.hi (span_intervalDecreaseEnd (lt_trans free nonempty))
    exact span_eq (toNat_sub_of_le (le_of_lt free)) atEnd

theorem span_grow (free : side.Free ri.span offset.toNat) :
    (side.reclaim.grow ri offset).span = side.grown ri.span offset.toNat := by
  cases side with
  | before => exact span_intervalIncreaseEnd free
  | after => exact span_eq (toNat_sub_of_le (le_of_lt free)) rfl

variable {span : Span}

theorem width_moved {offset : Nat} (free : side.Free span offset) :
    (side.moved span offset).width = span.width := by
  cases side with
  | before => exact Nat.add_sub_add_right _ _ _
  | after =>
    change offset < span.lo at free
    change span.hi - offset - (span.lo - offset) = span.hi - span.lo
    omega

theorem width_grown {offset : Nat} (upward : span.lo ≤ span.hi) (free : side.Free span offset) :
    (side.grown span offset).width = span.width + offset := by
  cases side with
  | before =>
    change span.hi + offset - span.lo = span.hi - span.lo + offset
    omega
  | after =>
    change offset < span.lo at free
    change span.hi - (span.lo - offset) = span.hi - span.lo + offset
    omega

theorem roomy_shrunk {offset size : Nat} (pos : 1 ≤ span.lo) (limit : span.hi < 2 ^ 64)
    (room : offset + size ≤ span.width) : Roomy (side.shrunk span offset) size := by
  rw [Span.width] at room
  cases side with
  | before =>
    refine ⟨pos.trans (Nat.le_add_right _ _), limit, ?_⟩
    change size ≤ span.hi - (span.lo + offset)
    omega
  | after =>
    refine ⟨pos, (Nat.sub_le _ _).trans_lt limit, ?_⟩
    change size ≤ span.hi - offset - span.lo
    omega

theorem roomy_moved {offset size : Nat} (pos : 1 ≤ span.lo)
    (limit : span.hi < 2 ^ 64) (free : side.Free span offset)
    (room : size ≤ span.width) : Roomy (side.moved span offset) size := by
  refine ⟨?_, ?_, room.trans (width_moved free).ge⟩
  · cases side with
    | before => exact pos.trans (Nat.le_add_right _ _)
    | after => exact Nat.le_sub_of_add_le (Nat.add_comm _ _ ▸ free)
  · cases side with
    | before => exact free
    | after => exact (Nat.sub_le _ _).trans_lt limit

theorem roomy_grown {offset size : Nat} (pos : 1 ≤ span.lo) (limit : span.hi < 2 ^ 64)
    (upward : span.lo ≤ span.hi) (free : side.Free span offset)
    (room : size ≤ span.width + offset) : Roomy (side.grown span offset) size := by
  refine ⟨?_, ?_, room.trans (width_grown upward free).ge⟩
  · cases side with
    | before => exact pos
    | after => exact Nat.le_sub_of_add_le (Nat.add_comm _ _ ▸ free)
  · cases side with
    | before => exact free
    | after => exact limit

end Side

/-! ## Moving siblings -/

variable {shape : TreeShape} {genesis above : DomainHash}
  {rc rc' : ReindexContext} {manager : ReachabilityManager} {rounds : Nat}

/-- The given nodes got new spans, each handed out to its subtree. -/
structure Moved (children : DomainHash → List DomainHash)
    (nodes : List DomainHash) (new span span' : DomainHash → Span) : Prop where
  atNodes : ∀ node ∈ nodes, span' node = new node
  outside : ∀ other, (∀ node ∈ nodes, ¬ Below children node other) → span' other = span other
  encloses : ∀ node ∈ nodes, ∀ other, Below children node other → Encloses span' children other

/-- The spans under one child are not touched by changes under another. -/
theorem encloses_of_apart (tree : shape.Rooted genesis) {span span' : DomainHash → Span}
    {node other : DomainHash} (nodes : List DomainHash)
    (beyond : ∀ other, (∀ node ∈ nodes, ¬ shape.Below node other) → span' other = span other)
    (mem : node ∈ shape.children above) (members : ∀ other ∈ nodes, other ∈ shape.children above)
    (notMember : node ∉ nodes) (below : shape.Below node other)
    (encloses : Encloses span shape.children other) : Encloses span' shape.children other := by
  have apart : ∀ lower, shape.Below node lower → span' lower = span lower := by
    intro lower under
    refine beyond lower fun peer beside underSibling => ?_
    rw [tree.child_unique mem (members peer beside) under underSibling] at notMember
    exact notMember beside
  exact encloses.congr (apart other below) fun child isChild =>
    apart child (below.trans (.of_child isChild))

section

variable {span middle span' new new' : DomainHash → Span}

theorem moved_of_replaced {node : DomainHash} {own : Span}
    (placed : Replaced shape.children node own span span') :
    Moved shape.children [node] span' span span' where
  atNodes _ _ := rfl
  outside other outside := placed.outside other (outside node (.head _))
  encloses other isIn lower below := by
    rw [mem_singleton.mp isIn] at below
    exact placed.encloses lower below

/-- Changes under some children, then under others. -/
theorem moved_append (tree : shape.Rooted genesis) {first second : List DomainHash}
    (members : ∀ node ∈ first ++ second, node ∈ shape.children above)
    (disjoint : ∀ node ∈ first, node ∉ second) (moved : Moved shape.children first new span middle)
    (moved' : Moved shape.children second new' middle span') :
    Moved shape.children (first ++ second) span' span span' where
  atNodes _ _ := rfl
  outside other outside := by
    rw [moved'.outside other fun node isNode => outside node (mem_append_right _ isNode),
      moved.outside other fun node isNode => outside node (mem_append_left _ isNode)]
  encloses node isNode other below := by
    rcases mem_append.mp isNode with isFirst | isSecond
    · exact encloses_of_apart tree second moved'.outside (members node isNode)
        (fun node isSecond => members node (mem_append_right _ isSecond))
        (disjoint node isFirst) below (moved.encloses node isFirst other below)
    · exact moved'.encloses node isSecond other below

end

/-- What is asked of a sibling that is to be moved. -/
structure Movable (side : Side) (offset : Nat) (children : DomainHash → List DomainHash)
    (span : DomainHash → Span) (node : DomainHash) : Prop where
  positive : 1 ≤ (span node).lo
  nonempty : (span node).lo < (span node).hi
  limit : (span node).hi < 2 ^ 64
  free : side.Free (span node) offset
  room : size children node ≤ (span node).width

theorem Movable.congr {side : Side} {offset : Nat} {children : DomainHash → List DomainHash}
    {span span' : DomainHash → Span} {node : DomainHash}
    (movable : Movable side offset children span node) (same : span' node = span node) :
    Movable side offset children span' node := by
  cases movable
  constructor <;> rw [same] <;> assumption

variable {taker : DomainHash} {offset : UInt64}

section

variable (tree : shape.Rooted genesis) (bound : size shape.children genesis < 2 ^ 64) (side : Side)

include tree bound side

/-- The siblings up to the one that needs room are moved. -/
theorem offsetEach_front {front rest : List DomainHash} (notIn : taker ∉ front)
    (members : ∀ node ∈ front, node ∈ shape.children above) (nodup : front.Nodup)
    (ok : ContextOk shape rc) (movable : ∀ node ∈ front,
    Movable side offset.toNat shape.children (spanOf rc.store) node) {post : ReindexContext → Prop}
    (goesOn : ∀ middle, ContextOk shape middle →
    Moved shape.children front (fun node => side.moved (spanOf rc.store node) offset.toNat)
    (spanOf rc.store) (spanOf middle.store) →
    Meets post (offsetEach manager rounds side.reclaim taker offset rest middle)) :
    Meets post (offsetEach manager rounds side.reclaim taker offset (front ++ rest) rc) := by
  induction front generalizing rc with
  | nil =>
    refine goesOn rc ok ⟨?_, fun _ _ => rfl, ?_⟩
    · exact nofun
    · exact nofun
  | cons node front ih =>
    rw [nodup_cons] at nodup
    have mem := members node (.head _)
    have restIn := fun other isIn => members other (.tail node isIn)
    have canMove := movable node (.head _)
    refine (harmless_span rc.store node).read fun interval read => ?_
    have isSpan := interval_ok read
    rw [if_neg (by
      rintro rfl
      exact notIn (.head _))]
    have movedSpan : (side.reclaim.move interval offset).span =
        side.moved (spanOf rc.store node) offset.toNat := by
      rw [← isSpan]
      exact Side.span_move (by rw [isSpan]; exact canMove.free)
        (by rw [isSpan]; exact canMove.nonempty)
    have nodeIn := (tree.rooted mem).trans (.of_child mem)
    refine .bind (stageSpan_meets tree bound ok nodeIn (by
      rw [movedSpan]
      exact Side.roomy_moved canMove.positive canMove.limit canMove.free canMove.room)) ?_
    rintro next ⟨nextOk, placed⟩
    rw [movedSpan] at placed
    have apart : ∀ other ∈ front, spanOf next.store other = spanOf rc.store other := by
      intro other isIn
      refine placed.outside other fun below => ?_
      rw [tree.child_unique mem (restIn other isIn) below (.refl other)] at nodup
      exact nodup.1 isIn
    refine ih (fun inFront => notIn (.tail node inFront)) restIn nodup.2 nextOk
      (fun other isIn => (movable other (.tail node isIn)).congr (apart other isIn)) ?_
    intro middle middleOk moved
    have both := moved_append tree members (forall_mem_singleton.mpr nodup.1)
      (moved_of_replaced placed) moved
    refine goesOn middle middleOk ⟨fun other isIn => ?_, both.2, both.3⟩
    rcases mem_cons.mp isIn with rfl | isIn
    · rw [moved.outside other, placed.atNode]
      intro peer beside below
      rw [tree.child_unique (restIn peer beside) mem below (.refl other)] at beside
      exact nodup.1 beside
    · rw [moved.atNodes other isIn, apart other isIn]

end

/-- The span of a sibling after it moved, or grew if it needs the room. -/
def newSpan (side : Side) (allocationNode : DomainHash) (offset : Nat)
    (span : DomainHash → Span) (node : DomainHash) : Span :=
  if node = allocationNode then side.grown (span node) offset
  else side.moved (span node) offset

/-- The siblings before the one that needs room move, and it grows. -/
theorem offsetEach_taken (tree : shape.Rooted genesis)
    (bound : size shape.children genesis < 2 ^ 64) (side : Side) {front back : List DomainHash}
    (notIn : taker ∉ front) (members : ∀ node ∈ front ++ [taker], node ∈ shape.children above)
    (nodup : front.Nodup) (ok : ContextOk shape rc)
    (movable : ∀ node ∈ front, Movable side offset.toNat shape.children (spanOf rc.store) node)
    (free : side.Free (spanOf rc.store taker) offset.toNat)
    (roomy : Roomy (side.grown (spanOf rc.store taker) offset.toNat) (size shape.children taker)) :
    Meets (fun rc' => ContextOk shape rc' ∧ Moved shape.children (front ++ [taker])
    (newSpan side taker offset.toNat (spanOf rc.store)) (spanOf rc.store) (spanOf rc'.store))
    (offsetEach manager rounds side.reclaim taker offset (front ++ taker :: back) rc) := by
  have frontMembers := fun node isNode => members node (mem_append_left _ isNode)
  have mem := members taker (mem_append_right _ (.head _))
  refine offsetEach_front tree bound side notIn frontMembers nodup ok movable ?_
  intro middle middleOk moved
  have apart : ∀ node ∈ front, ¬ shape.Below node taker := by
    intro node isNode below
    rw [tree.child_unique (frontMembers node isNode) mem below (.refl taker)] at isNode
    exact notIn isNode
  have same := moved.outside taker apart
  refine (harmless_span middle.store taker).read fun _ read => ?_
  have isSpan := interval_ok read
  rw [if_pos rfl]
  rw [← same, ← isSpan] at free roomy
  have grows := Side.span_grow free
  rw [← grows] at roomy
  refine (stageSpan_meets tree bound middleOk
    ((tree.rooted mem).trans (.of_child mem)) roomy).imp ?_
  rintro rc' ⟨lastOk, placed⟩
  rw [grows, isSpan, same] at placed
  have frontApart : ∀ node ∈ front, ¬ shape.Below taker node := by
    intro node isNode below
    rw [← tree.child_unique mem (frontMembers node isNode) below (.refl node)] at isNode
    exact notIn isNode
  have disjoint : ∀ node ∈ front, node ∉ [taker] := by
    intro node inFront last
    rw [mem_singleton.mp last] at inFront
    exact notIn inFront
  have both := moved_append tree members disjoint moved (moved_of_replaced placed)
  refine ⟨lastOk, fun node isNode => ?_, both.2, both.3⟩
  rw [newSpan]
  rcases mem_append.mp isNode with inFront | last
  · rw [if_neg (by
      rintro rfl
      exact notIn inFront), placed.outside node (frontApart node inFront),
      moved.atNodes node inFront]
  · rw [mem_singleton.mp last, if_pos rfl, placed.atNode]

/-! ## The gaps of the parent -/

/-- The node gave up numbers; its subtree was handed out again or kept. -/
structure Shrunk (children : DomainHash → List DomainHash) (side : Side)
    (node : DomainHash) (offset : Nat) (span span' : DomainHash → Span) : Prop where
  atNode : span' node = side.shrunk (span node) offset
  outside : ∀ other, ¬ Below children node other → span' other = span other
  encloses : ∀ other, Below children node other → Encloses span' children other

/-- The siblings on the side, the nearest first. -/
def Side.siblings : Side → List DomainHash → List DomainHash → List DomainHash
  | before, front, _ => front.reverse
  | after, _, back => back

section Gaps

variable (tree : shape.Rooted genesis) {node : DomainHash} {front back : List DomainHash}
  (split : shape.children above = front ++ node :: back) {side : Side} {offset : Nat}
  {span middle span' : DomainHash → Span} (shrunk : Shrunk shape.children side node offset span
  middle) (less : offset < (span node).width) {own other : Nat}
  (gaps : side.SideGaps span shape.children above own other)

variable {peer : DomainHash}

theorem mem_of_siblings (side : Side) (beside : peer ∈ side.siblings front back) :
    peer ∈ front ++ back := by
  cases side with
  | before => exact mem_append_left _ (mem_reverse.mp beside)
  | after => exact mem_append_right _ beside

theorem mem_of_split {nodes : List DomainHash}
    (split : nodes = front ++ node :: back) : node ∈ nodes := by
  rw [split]
  exact mem_append_right _ (.head _)

include tree split

theorem sibling_facts (beside : peer ∈ front ++ back) :
    peer ∈ shape.children above ∧ peer ≠ node ∧ ¬ shape.Below node peer := by
  have nodup := tree.nodup above
  rw [split, nodup_middle, nodup_cons] at nodup
  have mem : peer ∈ shape.children above := by
    rw [split]
    rcases mem_append.mp beside with inFront | inBack
    · exact mem_append_left _ inFront
    · exact mem_append_right _ (.tail node inBack)
  have nodeMember := mem_of_split split
  have ne : peer ≠ node := by
    rintro rfl
    exact nodup.1 beside
  refine ⟨mem, ne, fun below => ne ?_⟩
  exact (tree.child_unique nodeMember mem below (.refl peer)).symm

theorem Side.nodup_siblings (side : Side) : (side.siblings front back).Nodup := by
  have nodup := tree.nodup above
  rw [split, nodup_append] at nodup
  cases side with
  | before => exact nodup_reverse.mpr nodup.1
  | after => exact (nodup_cons.mp nodup.2.1).2

/-- The two sides of a node share no sibling. -/
theorem not_back_of_front (inFront : peer ∈ front) : peer ∉ back := by
  have nodup := tree.nodup above
  rw [split, nodup_append] at nodup
  intro inBack
  exact nodup.2.2 peer inFront peer (.tail node inBack) rfl

include shrunk

/-- What the node gives up, and what some siblings that move leave as it is. -/
theorem span_of_hop {nodes : List DomainHash} {new : DomainHash → Span}
    (beside : ∀ peer ∈ nodes, peer ∈ front ++ back)
    (moved : Moved shape.children nodes new middle span') : span' above = span above ∧
    span' node = side.shrunk (span node) offset ∧ (∀ peer ∈ front ++ back,
    middle peer = span peer) ∧ ∀ peer ∈ front ++ back, peer ∉ nodes → span' peer = span peer := by
  have nodeMember := mem_of_split split
  have same : ∀ peer ∈ front ++ back, middle peer = span peer := fun peer beside => shrunk.outside
    peer (sibling_facts tree split beside).2.2
  refine ⟨?_, ?_, same, ?_⟩
  · rw [← shrunk.outside above (tree.not_below nodeMember)]
    refine moved.outside above fun peer isNode below => ?_
    exact tree.not_below (sibling_facts tree split (beside peer isNode)).1 below
  · rw [← shrunk.atNode]
    refine moved.outside node fun peer isNode below => ?_
    have facts := sibling_facts tree split (beside peer isNode)
    exact facts.2.1 (tree.child_unique facts.1 nodeMember below (.refl node))
  · intro other isIn notNode
    rw [← same other isIn]
    refine moved.outside other fun peer isNode below => notNode ?_
    rw [← tree.child_unique (sibling_facts tree split (beside peer isNode)).1
      (sibling_facts tree split isIn).1 below (.refl other)]
    exact isNode

include less gaps

/-- If all siblings on the side moved, the gap on the side has grown. -/
theorem sideGaps_apart (moved : Moved shape.children (side.siblings front back)
      (fun peer => side.moved (middle peer) offset) middle span') :
    side.SideGaps span' shape.children above (own + offset) other := by
  rcases span_of_hop tree split shrunk (fun _ => mem_of_siblings side) moved
    with ⟨still, atNode, sameSibling, apart⟩
  rw [Span.width] at less
  cases side with
  | before =>
    rcases gaps with ⟨stop, tiles, atEnd⟩
    rw [split] at tiles
    rcases tiles_append.mp tiles with ⟨start, left, atStart, upward, right⟩
    refine ⟨stop, ?_, by rw [still]; exact atEnd⟩
    rw [split, still, ← add_assoc]
    refine tiles_append.mpr ⟨start + offset, left.shift_up ?_, ?_⟩
    · intro peer inFront
      rw [moved.atNodes peer (mem_reverse.mpr inFront),
        sameSibling peer (mem_append_left _ inFront)]
      rfl
    · rw [Tiles, atNode]
      change (span node).lo + offset = start + offset ∧ start + offset ≤ (span node).hi ∧
        Tiles span' (span node).hi back stop
      refine ⟨by rw [atStart], by omega, right.congr ?_⟩
      intro peer inBack
      refine apart peer (mem_append_right _ inBack) fun isMoved => ?_
      exact not_back_of_front tree split (mem_reverse.mp isMoved) inBack
  | after =>
    rcases gaps with ⟨stop, tiles, atEnd⟩
    rw [split] at tiles
    rcases tiles_append.mp tiles with ⟨start, left, atStart, upward, right⟩
    have within := right.le
    refine ⟨stop - offset, ?_, by rw [still]; omega⟩
    rw [split, still]
    refine tiles_append.mpr ⟨start, left.congr ?_, ?_⟩
    · intro peer inFront
      exact apart peer (mem_append_left _ inFront) (not_back_of_front tree split inFront)
    · rw [Tiles, atNode]
      change (span node).lo = start ∧ start ≤ (span node).hi - offset ∧
        Tiles span' ((span node).hi - offset) back (stop - offset)
      refine ⟨atStart, by omega, right.shift_down ?_⟩
      intro peer inBack
      rw [moved.atNodes peer inBack, sameSibling peer (mem_append_right _ inBack)]
      rfl

/-- If a sibling took the numbers, the gaps are as before. -/
theorem sideGaps_taken {taker : DomainHash} {near far : List DomainHash}
    (siblings : side.siblings front back = near ++ taker :: far)
    (moved : Moved shape.children (near ++ [taker]) (newSpan side taker offset middle) middle span')
    : side.SideGaps span' shape.children above own other := by
  rw [append_cons] at siblings
  have someSiblings : ∀ peer ∈ near ++ [taker], peer ∈ side.siblings front back := by
    intro peer beside
    rw [siblings]
    exact mem_append_left _ beside
  have nodup := Side.nodup_siblings tree split side
  rw [siblings, nodup_append, nodup_append] at nodup
  rcases nodup with ⟨⟨-, -, notLast⟩, -, notFar⟩
  rcases span_of_hop tree split shrunk (fun peer isMoved => mem_of_siblings side
      (someSiblings peer isMoved)) moved with ⟨still, atNode, sameSibling, atRest⟩
  have atAllocation : span' taker = side.grown (span taker) offset := by
    have isLast : taker ∈ near ++ [taker] := mem_append_right _ (.head _)
    rw [moved.atNodes taker isLast, newSpan, if_pos rfl, sameSibling taker
        (mem_of_siblings side (someSiblings taker isLast))]
  have atNear : ∀ peer ∈ near, span' peer = side.moved (span peer) offset := by
    intro peer isNear
    have isMoved := mem_append_left [taker] isNear
    have different := notLast peer isNear taker (.head _)
    rw [moved.atNodes peer isMoved, newSpan, if_neg different, sameSibling peer
        (mem_of_siblings side (someSiblings peer isMoved))]
  have atFar : ∀ peer ∈ far, span' peer = span peer := by
    intro peer isFar
    refine atRest peer (mem_of_siblings side ?_) fun isMoved => notFar peer isMoved peer isFar rfl
    rw [siblings]
    exact mem_append_right _ isFar
  rw [Span.width] at less
  cases side with
  | before =>
    have isFront : front = far.reverse ++ taker :: near.reverse := by
      rw [← reverse_reverse front, (show front.reverse = near ++ [taker] ++ far from siblings),
        reverse_append, reverse_append]
      rfl
    rcases gaps with ⟨stop, tiles, atEnd⟩
    rw [split, isFront, append_assoc] at tiles
    rcases tiles_append.mp tiles with ⟨first, left, atFirst, grows, tiles⟩
    rcases tiles_append.mp tiles with ⟨start, inner, atStart, upward, right⟩
    refine ⟨stop, ?_, by rw [still]; exact atEnd⟩
    rw [split, isFront, still, append_assoc, cons_append]
    refine tiles_append.mpr ⟨first, left.congr fun peer isFar =>
      atFar peer (mem_reverse.mp isFar), ?_⟩
    rw [Tiles, atAllocation]
    refine ⟨atFirst, grows.trans (Nat.le_add_right _ _), tiles_append.mpr
      ⟨start + offset, inner.shift_up fun peer isNear => atNear peer (mem_reverse.mp isNear), ?_⟩⟩
    rw [Tiles, atNode]
    change (span node).lo + offset = start + offset ∧ start + offset ≤ (span node).hi ∧
      Tiles span' (span node).hi back stop
    refine ⟨by rw [atStart], by omega, right.congr ?_⟩
    intro peer inBack
    refine atRest peer (mem_append_right _ inBack) fun isMoved => ?_
    exact not_back_of_front tree split (mem_reverse.mp (someSiblings peer isMoved)) inBack
  | after =>
    have isBack : back = near ++ taker :: far := by
      rw [append_cons]
      exact siblings
    rcases gaps with ⟨stop, tiles, atEnd⟩
    rw [split, isBack] at tiles
    rcases tiles_append.mp tiles with ⟨start, left, atStart, upward, tiles⟩
    rcases tiles_append.mp tiles with ⟨last, inner, atLast, grows, right⟩
    refine ⟨stop, ?_, by rw [still]; exact atEnd⟩
    rw [split, isBack, still]
    refine tiles_append.mpr ⟨start, left.congr ?_, ?_⟩
    · intro peer inFront
      refine atRest peer (mem_append_left _ inFront) fun isMoved => ?_
      exact not_back_of_front tree split inFront (someSiblings peer isMoved)
    · rw [Tiles, atNode]
      change (span node).lo = start ∧ start ≤ (span node).hi - offset ∧
        Tiles span' ((span node).hi - offset) (near ++ taker :: far) stop
      refine ⟨atStart, by omega, tiles_append.mpr ⟨last - offset, inner.shift_down atNear, ?_⟩⟩
      rw [Tiles, atAllocation]
      change (span taker).lo - offset = last - offset ∧ last - offset ≤ (span taker).hi ∧
        Tiles span' (span taker).hi far stop
      exact ⟨by rw [atLast], by omega, right.congr atFar⟩

end Gaps

/-! ## What changes under some children of one node leave -/

section Frame

variable (tree : shape.Rooted genesis) {nodes : List DomainHash}
  {new span span' : DomainHash → Span} (members : ∀ node ∈ nodes, node ∈ shape.children above)
  (moved : Moved shape.children nodes new span span')

include tree members moved

/-- A node elsewhere keeps its span, and so do its children. -/
theorem Moved.frame {other : DomainHash} (apart : other ≠ above)
    (beyond : ∀ node ∈ nodes, ¬ shape.Below node other) : span' other = span other ∧
    ∀ child ∈ shape.children other, span' child = span child := by
  refine ⟨moved.outside other beyond, fun child mem => ?_⟩
  refine moved.outside child fun node isNode below => ?_
  rcases below.cases_parent with rfl | ⟨_, isChild, path⟩
  · exact apart (tree.parent_unique mem (members node isNode))
  · rw [tree.parent_unique isChild mem] at path
    exact beyond node isNode path

/-- The tree stays nested if the node above encloses its children again. -/
theorem Moved.nested {spared spared' : DomainHash → Prop}
    (nested : Nested shape.children genesis spared span)
    (encloses : Encloses span' shape.children above) (handedOut : ∀ other, spared other →
    ¬ spared' other → ∃ node ∈ nodes, shape.Below node other) (leaves : ∀ other, spared' other →
    shape.children other = []) : Nested shape.children genesis spared' span' where
  atGenesis := by
    rw [moved.outside genesis, nested.atGenesis]
    intro node isNode below
    exact tree.not_below (members node isNode) (below.trans (tree.rooted (members node isNode)))
  encloses other inTree notSpared := by
    by_cases isAbove : other = above
    · rw [isAbove]
      exact encloses
    by_cases under : ∃ node ∈ nodes, shape.Below node other
    · rcases under with ⟨node, isNode, below⟩
      exact moved.encloses node isNode other below
    have beyond : ∀ node ∈ nodes, ¬ shape.Below node other :=
      fun node isNode below => under ⟨node, isNode, below⟩
    rcases moved.frame tree members isAbove beyond with ⟨sameNode, alike⟩
    refine (nested.encloses other inTree fun isSpared => ?_).congr sameNode alike
    exact under (handedOut other isSpared notSpared)
  leaves := leaves

end Frame

end Htnd.Reachability.Offset
