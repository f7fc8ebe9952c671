import Htnd.Reachability.NewChild

/-!
# Moving the reindex root

Concentrating the intervals of a node towards a chosen child lays out all its
children again: the siblings get exactly their sizes at both ends, a slack in
from the ends of the node, and the chosen child gets everything between.  The
walk from an ancestor to the new reindex root does so node by node, and below
the last node the spans are kept if they still fit and handed out again
otherwise.  Between two rounds the next node may not enclose its children, but
its children still tile and enclose what is below them.
-/

namespace Htnd.Reachability.Concentrate

open Lib.Fallible Lib.RootedTree Lib.SpanTree Utxo.Entry Reachability.Interval
open Reachability.Tree Reindex Manager Shape Outcome Subtrees Propagate
  Ancestors Invariant List
open Offset Function

variable {shape : TreeShape} {genesis above : DomainHash}
  {rc rc' : ReindexContext} {manager : ReachabilityManager} {rounds slack : Nat}

/-! ## Exact intervals for some children -/

variable {count : DomainHash → Nat} {parts : List ReachabilityInterval} {first last : Nat}

/-- Parts of the exact sizes have room for them. -/
theorem roomy_of_exact {nodes : List DomainHash} {sizes : List UInt64}
    (areSizes : sizes.map UInt64.toNat = nodes.map count)
    (tiles : Tiles ReachabilityInterval.span first parts last) (pos : 1 ≤ first)
    (limit : last < 2 ^ 64) (widths : List.Forall₂ (fun size interval => interval.span.width =
    size.toNat) sizes parts) : List.Forall₂ (fun node interval => Roomy interval.span (count node))
    nodes parts ∧ List.Forall₂ (fun node interval => interval.span.width = count node) nodes
    parts := by
  induction widths generalizing nodes first with
  | nil =>
    rw [map_nil, eq_comm, map_eq_nil_iff] at areSizes
    rw [areSizes]
    exact ⟨.nil, .nil⟩
  | @cons size interval sizes parts width _ ih =>
    cases nodes with
    | nil => cases areSizes
    | cons node nodes =>
      rw [map_cons, map_cons, List.cons.injEq] at areSizes
      have bounds := tiles.bounds (.head _)
      rcases ih areSizes.2 tiles.2.2 (by omega) with ⟨roomy, exact⟩
      rw [areSizes.1] at width
      exact ⟨.cons ⟨by omega, by omega, width.ge⟩ roomy, List.Forall₂.cons width exact⟩

variable {node : DomainHash}

theorem width_of_staged {span : DomainHash → Span} {nodes : List DomainHash}
    (spans : List.Forall₂ (fun node interval => span node = interval.span) nodes parts)
    (widths : List.Forall₂ (fun node interval => interval.span.width = count node) nodes parts)
    (mem : node ∈ nodes) : (span node).width = count node := by
  induction spans with
  | nil => cases mem
  | @cons first interval nodes parts same _ ih =>
    cases widths with
    | cons width widths =>
      rcases mem_cons.mp mem with rfl | mem
      · rw [same, width]
      · exact ih widths mem

section Siblings

variable (tree : shape.Rooted genesis)
  (bound : size shape.children genesis < 2 ^ 64) {nodes : List DomainHash}
  (members : ∀ node ∈ nodes, node ∈ shape.children above) (nodup : nodes.Nodup)

include tree bound members

variable {sizes : List UInt64}

theorem countEach_ok (ok : ContextOk shape rc)
    (isOk : countEach rounds nodes rc = .ok (rc', sizes)) : ContextOk shape rc' ∧
    rc'.store = rc.store ∧ sizes.map UInt64.toNat = nodes.map (size shape.children) := by
  induction nodes generalizing rc sizes with
  | nil =>
    cases isOk
    exact ⟨ok, rfl, rfl⟩
  | cons node nodes ih =>
    have mem := members node (.head _)
    rcases ok_of_bind isOk with ⟨counted, counts, isOk⟩
    rcases ok_of_bind isOk with ⟨⟨_, _⟩, countsRest, isOk⟩
    cases isOk
    rcases countSubtrees_ok tree bound ok.isShape
      ((tree.rooted mem).trans (.of_child mem)) ok.cached counts with ⟨same, cached, hit⟩
    have countedOk : ContextOk shape counted := ⟨by rw [same]; exact ok.isShape, cached⟩
    rcases ih (fun other isIn => members other (.tail node isIn)) countedOk
      countsRest with ⟨lastOk, sameStore', areSizes⟩
    refine ⟨lastOk, sameStore'.trans same, ?_⟩
    rw [map_cons, map_cons, areSizes, cached.cachedSize_eq hit]

include nodup

/-- Every child got its interval, handed out to its subtree. -/
theorem propagateEach_meets (ok : ContextOk shape rc) {intervals : List ReachabilityInterval}
    (roomy : List.Forall₂ (fun node interval => Roomy interval.span (size shape.children node))
    nodes intervals) : Meets (fun rc' => ContextOk shape rc' ∧
    Moved shape.children nodes (spanOf rc'.store) (spanOf rc.store) (spanOf rc'.store) ∧
    List.Forall₂ (fun node interval => spanOf rc'.store node = interval.span) nodes intervals)
    (propagateEach manager rounds nodes intervals rc) := by
  induction roomy generalizing rc with
  | nil =>
    refine ⟨ok, ⟨fun _ _ => rfl, fun _ _ => rfl, ?_⟩, .nil⟩
    exact nofun
  | @cons node interval nodes intervals room _ ih =>
    rw [nodup_cons] at nodup
    have mem := members node (.head _)
    have restIn : ∀ other ∈ nodes, other ∈ shape.children above :=
      fun other isIn => members other (.tail node isIn)
    refine .bind (stageSpan_meets tree bound ok ((tree.rooted mem).trans (.of_child mem)) room) ?_
    rintro _ ⟨nextOk, placed⟩
    refine (ih restIn nodup.2 nextOk).imp ?_
    rintro _ ⟨lastOk, moved, spans⟩
    have apart : ∀ other ∈ nodes, ¬ shape.Below other node := by
      intro other isIn below
      rw [tree.child_unique (restIn other isIn) mem below (.refl node)] at isIn
      exact nodup.1 isIn
    refine ⟨lastOk, moved_append tree members (forall_mem_singleton.mpr
      nodup.1) (moved_of_replaced placed) moved, .cons ?_ spans⟩
    rw [moved.outside node apart, placed.atNode]

/-- The children tile the interval, each with as many numbers as it needs. -/
theorem propagateChildrenIntervals_meets (ok : ContextOk shape rc) {interval : ReachabilityInterval}
    (areSizes : sizes.map UInt64.toNat = nodes.map (size shape.children))
    (isSpan : interval.span = ⟨first, last⟩) (pos : 1 ≤ first) (limit : last < 2 ^ 64)
    (fills : first + (nodes.map (size shape.children)).sum = last) :
    Meets (fun rc' => ContextOk shape rc' ∧ Moved shape.children nodes (spanOf rc'.store)
    (spanOf rc.store) (spanOf rc'.store) ∧ Tiles (spanOf rc'.store) first nodes last ∧
    ∀ node ∈ nodes, (spanOf rc'.store node).width = size shape.children node)
    (propagateChildrenIntervals manager rounds rc interval nodes sizes) := by
  have lo := congrArg Span.lo isSpan
  have hi := congrArg Span.hi isSpan
  dsimp only at lo hi
  have isWidth : (sizes.map UInt64.toNat).sum = interval.span.width := by
    rw [areSizes, Span.width]
    omega
  rcases splitExact_eq (by omega) (by omega) (by omega) isWidth with ⟨_, splits, tiles, widths⟩
  rw [propagateChildrenIntervals, ok_bind splits]
  rw [lo, hi] at tiles
  rcases roomy_of_exact areSizes tiles pos limit widths with ⟨roomy, exact⟩
  refine (propagateEach_meets tree bound members nodup ok roomy).imp ?_
  rintro rc' ⟨ok', moved, spans⟩
  exact ⟨ok', moved, tiles_of_staged spans tiles, fun node mem => width_of_staged spans exact mem⟩

/--
The sizes were counted; otherwise there are none, and handing out intervals
runs past the end of a list.
-/
theorem countChildrenSubtrees_cases (ok : ContextOk shape rc) {counted : ReindexContext}
    {sum : UInt64} (counts : countChildrenSubtrees rounds rc nodes = (counted, sizes, sum)) :
    ContextOk shape counted ∧ counted.store = rc.store ∧
    (sizes.map UInt64.toNat = nodes.map (size shape.children) ∧
    sum.toNat = (nodes.map (size shape.children)).sum ∨ sizes = [] ∧ sum = 0 ∧ nodes ≠ []) := by
  have fits := (tree.sum_size_le members nodup).trans_lt bound
  rw [countChildrenSubtrees] at counts
  cases each : countEach rounds nodes rc with
  | ok result =>
    rw [each] at counts
    cases counts
    rcases countEach_ok tree bound members ok each with ⟨countedOk, same, areSizes⟩
    refine ⟨countedOk, same, .inl ⟨areSizes, ?_⟩⟩
    rw [← areSizes] at fits ⊢
    exact toNat_sum fits
  | error err =>
    rw [each] at counts
    cases counts
    refine ⟨ok, rfl, .inr ⟨rfl, rfl, ?_⟩⟩
    rintro rfl
    cases each

end Siblings

/-! ## Laying out the children of a node -/

/-- Where the children of a node are laid out again. -/
structure Spacious (shape : TreeShape) (genesis : DomainHash) (slack : Nat)
    (span : Span) : Prop where
  positive : 1 ≤ span.lo
  limit : span.hi < 2 ^ 64
  wide : 2 ^ 63 ≤ span.width
  ample : Ample slack (size shape.children genesis)

/-- Children side by side, each as wide as its subtree. -/
structure LaidOut (shape : TreeShape) (nodes : List DomainHash) (store : ReachabilityDataStore)
    (first last : Nat) (result : ReindexContext × UInt64) : Prop where
  ok : ContextOk shape result.1
  isSum : result.2.toNat = (nodes.map (size shape.children)).sum
  moved : Moved shape.children nodes (spanOf result.1.store) (spanOf store) (spanOf result.1.store)
  tiles : Tiles (spanOf result.1.store) first nodes last
  widths : ∀ node ∈ nodes, (spanOf result.1.store node).width = size shape.children node

section Layout

variable (tree : shape.Rooted genesis) (isSlack : manager.reindexSlack.toNat = slack)
  (spacious : Spacious shape genesis slack (spanOf rc.store above)) {nodes : List DomainHash}
  (members : ∀ node ∈ nodes, node ∈ shape.children above) (nodup : nodes.Nodup)

include tree spacious

theorem Spacious.slack_le : slack ≤ 2 ^ 58 := by
  have fits := spacious.ample.mul_le le_rfl
  have pos := Nat.le_mul_of_pos_right slack (tree.size_pos (.refl genesis))
  omega

include members nodup

theorem Spacious.sum_le : (nodes.map (size shape.children)).sum ≤ 2 ^ 57 :=
  (tree.sum_size_le members nodup).trans spacious.ample.nodes_le

/-- The counted children are laid out in the interval that is placed. -/
theorem layOut_meets (place : ReachabilityInterval → UInt64 →
      ReachabilityInterval) (first last : UInt64 → Nat)
    (empty : ∀ interval, intervalSize (place interval 0) = 0)
    (placed : ∀ interval sum, interval.span = spanOf rc.store above →
      sum.toNat = (nodes.map (size shape.children)).sum →
      (place interval sum).span = ⟨first sum, last sum⟩ ∧ 1 ≤ first sum ∧ last sum < 2 ^ 64 ∧
        first sum + sum.toNat = last sum) (ok : ContextOk shape rc) :
    Meets (fun result => LaidOut shape nodes rc.store (first result.2) (last result.2) result) (do
        let (counted, sizes, sum) := countChildrenSubtrees rounds rc nodes
        let interval ← counted.store.interval above
        let next ← propagateChildrenIntervals manager rounds counted
          (place interval sum) nodes sizes
        return (next, sum)) := by
  have bound : size shape.children genesis < 2 ^ 64 := spacious.ample.nodes_le.trans_lt (by decide)
  rcases counts : countChildrenSubtrees rounds rc nodes with ⟨counted, sizes, sum⟩
  refine (harmless_span counted.store above).read fun interval read => ?_
  rcases countChildrenSubtrees_cases tree bound members nodup ok counts
    with ⟨countedOk, same, hasSizes⟩
  have isSpan := interval_ok read
  rw [same] at isSpan
  rcases hasSizes with ⟨areSizes, isSum⟩ | ⟨rfl, rfl, someNodes⟩
  · rcases placed interval sum isSpan isSum with ⟨layout, pos, limit, fills⟩
    rw [isSum] at fills
    refine .bind (propagateChildrenIntervals_meets tree bound members
      nodup countedOk areSizes layout pos limit fills) ?_
    rintro next ⟨ok', moved, tiles, widths⟩
    rw [same] at moved
    exact ⟨ok', isSum, moved, tiles, widths⟩
  · have splits : intervalSplitExact (place interval 0) [] = .ok [] := by
      rw [intervalSplitExact, empty]
      rfl
    rw [propagateChildrenIntervals, ok_bind splits]
    cases nodes with
    | nil => exact absurd rfl someNodes
    | cons node nodes => exact not_false

include isSlack

theorem tightenIntervalsBefore_meets (ok : ContextOk shape rc) :
    Meets (fun result => LaidOut shape nodes rc.store ((spanOf rc.store above).lo + slack)
    ((spanOf rc.store above).lo + slack + result.2.toNat) result)
    (tightenIntervalsBefore manager rounds rc above nodes) := by
  have slackAtMost := spacious.slack_le tree
  have sumAtMost := spacious.sum_le tree members nodup
  refine layOut_meets tree spacious members nodup (fun interval sum =>
    ⟨interval.start + manager.reindexSlack, interval.start + manager.reindexSlack + sum - 1⟩)
    (fun _ => (spanOf rc.store above).lo + slack) (fun sum => (spanOf rc.store above).lo + slack +
    sum.toNat) (fun interval => by rw [intervalSize]; grind) ?_ ok
  intro interval sum isSpan _
  have isStart : interval.start.toNat = (spanOf rc.store above).lo := congrArg Span.lo isSpan
  have pos := spacious.positive
  have limit := spacious.limit
  have wide := spacious.wide
  rw [Span.width] at wide
  have startIs : (interval.start + manager.reindexSlack).toNat =
      (spanOf rc.store above).lo + slack := by
    rw [toNat_add_of_lt (by omega), isStart, isSlack]
  have layout := span_sized (interval.start + manager.reindexSlack) sum (by omega) (by omega)
  rw [startIs] at layout
  exact ⟨layout, by omega, by omega, rfl⟩

theorem tightenIntervalsAfter_meets (ok : ContextOk shape rc) :
    Meets (fun result => LaidOut shape nodes rc.store ((spanOf rc.store above).hi - 1 - slack -
    result.2.toNat) ((spanOf rc.store above).hi - 1 - slack) result)
    (tightenIntervalsAfter manager rounds rc above nodes) := by
  have slackAtMost := spacious.slack_le tree
  have sumAtMost := spacious.sum_le tree members nodup
  refine layOut_meets tree spacious members nodup (fun interval sum =>
      ⟨interval.end_ - manager.reindexSlack - sum, interval.end_ - manager.reindexSlack - 1⟩)
    (fun sum => (spanOf rc.store above).hi - 1 - slack - sum.toNat)
    (fun _ => (spanOf rc.store above).hi - 1 - slack)
    (fun interval => by rw [intervalSize]; grind) ?_ ok
  intro interval sum isSpan _
  have isEnd : interval.end_.toNat + 1 = (spanOf rc.store above).hi := congrArg Span.hi isSpan
  have limit := spacious.limit
  have wide := spacious.wide
  rw [Span.width] at wide
  have stopIs : (interval.end_ - manager.reindexSlack).toNat =
      (spanOf rc.store above).hi - 1 - slack := by
    rw [toNat_sub_of_le (by omega)]
    omega
  have endIs : (interval.end_ - manager.reindexSlack - 1).toNat + 1 =
      (spanOf rc.store above).hi - 1 - slack := by
    rw [toNat_sub_of_le (by rw [UInt64.toNat_one]; omega), UInt64.toNat_one]
    omega
  have startIs : (interval.end_ - manager.reindexSlack - sum).toNat =
      (spanOf rc.store above).hi - 1 - slack - sum.toNat := by
    rw [toNat_sub_of_le (by omega), stopIs]
  exact ⟨span_eq startIs endIs, by omega, by omega, by omega⟩

end Layout

/-! ## The state between two rounds -/

/-- Everything that is not below the node is indexed towards it. -/
structure Chained (shape : TreeShape) (genesis : DomainHash) (slack : Nat)
    (above : DomainHash) (span : DomainHash → Span) : Prop where
  inTree : Below shape.children genesis above
  atGenesis : span genesis = ⟨1, 2 ^ 64 - 1⟩
  outside : ∀ node, Below shape.children genesis node →
    ¬ Below shape.children above node → Encloses span shape.children node
  tight : ∀ node, Below shape.children genesis node →
    Below shape.children node above → node ≠ above → Tight span shape.children slack above node
  positive : 1 ≤ (span above).lo
  limit : (span above).hi < 2 ^ 64

/-- The children of the node tile, and enclose what is below them. -/
structure Concentrating (shape : TreeShape) (genesis : DomainHash)
    (slack : Nat) (above : DomainHash) (span : DomainHash → Span) : Prop
    extends Chained shape genesis slack above span where
  tiles : ∃ start stop, 1 ≤ start ∧ Tiles span start (shape.children above) stop
  inside : ∀ node, Below shape.children above node → node ≠ above →
    Encloses span shape.children node

section Round

variable (tree : shape.Rooted genesis) (ample : Ample slack (size shape.children genesis))
  {span middle span' : DomainHash → Span} {chosen : DomainHash} {before after : List DomainHash}

include tree

theorem Chained.spacious (ample : Ample slack (size shape.children genesis))
    (chain : Chained shape genesis slack above span) : Spacious shape genesis slack (span above) :=
  ⟨chain.positive, chain.limit, wide_of_tight tree chain.atGenesis
    chain.tight ample chain.inTree (.refl above), ample⟩

variable (chain : Chained shape genesis slack above span)
  (split : shape.children above = before ++ chosen :: after)
  (moved : Moved shape.children (before ++ after) middle span middle)
  (changed : ∀ other, ¬ shape.Below chosen other → span' other = middle other)

include chain split moved changed

/-- A node outside the subtree of the chosen child encloses. -/
theorem encloses_of_layout (atAbove : Encloses span' shape.children above)
    (inTree : shape.Below genesis node) (beyond : ¬ shape.Below chosen node) :
    Encloses span' shape.children node := by
  have isChosen := mem_of_split split
  have members : ∀ child ∈ before ++ after, child ∈ shape.children above := fun child isChild =>
    (sibling_facts tree split isChild).1
  by_cases isAbove : node = above
  · rw [isAbove]
    exact atAbove
  have notChosen : ∀ child ∈ shape.children node, child ≠ chosen := by
    rintro child isChild rfl
    exact isAbove (tree.parent_unique isChild isChosen)
  have alike : ∀ child ∈ shape.children node, span' child = middle child := by
    intro child isChild
    refine changed child fun below => ?_
    rcases below.cases_parent with same | ⟨_, lastIn, path⟩
    · exact notChosen child isChild same.symm
    · rw [tree.parent_unique lastIn isChild] at path
      exact beyond path
  refine Encloses.congr ?_ (changed node beyond) alike
  by_cases under : ∃ child ∈ before ++ after, shape.Below child node
  · rcases under with ⟨child, isChild, below⟩
    exact moved.encloses child isChild node below
  have notUnder : ∀ child ∈ before ++ after, ¬ shape.Below child node := fun child isChild below =>
    under ⟨child, isChild, below⟩
  rcases moved.frame tree members isAbove notUnder with ⟨sameNode, sameBelow⟩
  refine (chain.outside node inTree fun below => ?_).congr sameNode sameBelow
  rcases below.cases_child with same | ⟨child, isChild, path⟩
  · exact isAbove same.symm
  by_cases same : child = chosen
  · rw [same] at path
    exact beyond path
  · exact notUnder child (Reclaim.mem_siblings split isChild same) path

variable {firstSize lastSize : Nat} (tilesBefore : Tiles middle ((span above).lo + slack) before
  ((span above).lo + slack + firstSize)) (tilesAfter :
  Tiles middle ((span above).hi - 1 - slack - lastSize) after ((span above).hi - 1 - slack))
  (widths : ∀ node ∈ before ++ after, (middle node).width = size shape.children node)
  (fits : 2 * slack + firstSize + lastSize + 2 ≤ (span above).width)
  (atChosen : span' chosen = ⟨(span above).lo + slack + firstSize,
  (span above).hi - 1 - slack - lastSize⟩)

omit chain in
theorem span_above_of_layout : span' above = span above := by
  have isChosen := mem_of_split split
  rw [changed above (tree.not_below isChosen), moved.outside above fun _ isChild => tree.not_below
    (sibling_facts tree split isChild).1]

include tilesBefore tilesAfter fits atChosen

omit chain in
/-- The node keeps the slack on both sides of its children. -/
theorem gaps_of_layout : Gaps span' shape.children above slack slack := by
  have still := span_above_of_layout tree split moved changed
  have same : ∀ node ∈ before ++ after, span' node = middle node := fun node isNode => changed node
    (sibling_facts tree split isNode).2.2
  rw [Span.width] at fits
  refine ⟨(span above).hi - 1 - slack, ?_, by rw [still]; omega⟩
  rw [still, split]
  refine tiles_append.mpr ⟨_, tilesBefore.congr fun node isNode =>
    same node (mem_append_left _ isNode), ?_⟩
  rw [Tiles, atChosen]
  refine ⟨rfl, ?_, tilesAfter.congr fun node isNode => same node (mem_append_right _ isNode)⟩
  change _ ≤ (span above).hi - 1 - slack - lastSize
  omega

include widths

theorem chained_of_layout (one_le : 1 ≤ slack) : Chained shape genesis slack chosen span' := by
  have gaps := gaps_of_layout tree split moved changed tilesBefore tilesAfter fits atChosen
  have isChosen := mem_of_split split
  have members : ∀ child ∈ before ++ after, child ∈ shape.children above := fun child isChild =>
    (sibling_facts tree split isChild).1
  have limit := chain.limit
  refine ⟨chain.inTree.trans (.of_child isChosen), ?_, ?_, ?_, ?_, ?_⟩
  · rw [changed, moved.outside, chain.atGenesis]
    · intro child isChild below
      exact tree.not_below (members child isChild) (below.trans chain.inTree)
    · intro below
      exact tree.not_below isChosen (below.trans chain.inTree)
  · intro node inTree beyond
    exact encloses_of_layout tree chain split moved changed gaps.encloses inTree beyond
  · intro node inTree toChosen ne
    by_cases isAbove : node = above
    · rw [isAbove]
      refine ⟨⟨slack, slack, gaps, le_rfl, le_rfl⟩, ?_⟩
      intro child isChild besides
      have notChosen : child ≠ chosen := by
        rintro rfl
        exact besides (.refl child)
      have beside := Reclaim.mem_siblings split isChild notChosen
      rw [changed child (sibling_facts tree split beside).2.2, widths child beside]
      exact Nat.le_mul_of_pos_left _ one_le
    · have toAbove := tree.below_parent isChosen toChosen ne
      have beyond : ∀ child ∈ shape.children above, ¬ shape.Below child node :=
          fun child isChild below => tree.not_below isChild (below.trans toAbove)
      rcases moved.frame tree members isAbove (fun child isChild =>
        beyond child (members child isChild)) with ⟨sameNode, alike⟩
      have tight := chain.tight node inTree toAbove isAbove
      refine Tight.congr ⟨tight.1, fun child mem besides => tight.2 child mem fun path => besides
        (path.trans (.of_child isChosen))⟩ ?_ ?_
      · rw [changed node (beyond chosen isChosen), sameNode]
      · intro child isChild
        rw [changed, alike child isChild]
        intro below
        rcases below.cases_parent with same | ⟨_, lastIn, path⟩
        · rw [← same] at isChild
          exact isAbove (tree.parent_unique isChild isChosen)
        · rw [tree.parent_unique lastIn isChild] at path
          exact beyond chosen isChosen path
  · rw [atChosen]
    change 1 ≤ _ + slack + firstSize
    omega
  · rw [atChosen]
    change _ - 1 - slack - lastSize < _
    omega

end Round

/-! ## The chosen child -/

/-- Widening the topmost span keeps a subtree enclosed. -/
theorem encloses_update (tree : shape.Rooted genesis) {span : DomainHash → Span}
    {chosen : DomainHash} {new : Span} (inside : ∀ node, shape.Below chosen node →
    Encloses span shape.children node) (contains : new.Contains (span chosen))
    (below : shape.Below chosen node) : Encloses (Function.update span chosen new) shape.children
    node := by
  have alike : ∀ child ∈ shape.children node, update span chosen new child = span child := by
    intro child isChild
    refine update_of_ne ?_ _ _
    rintro rfl
    exact tree.not_below isChild below
  have wider : (update span chosen new node).Contains (span node) := by
    by_cases isChosen : node = chosen
    · rw [isChosen, update_self]
      exact contains
    · rw [update_of_ne isChosen]
      exact ⟨le_rfl, le_rfl⟩
  rcases inside node below with ⟨start, stop, floor, tiles, below⟩
  exact ⟨start, stop, wider.1.trans floor, tiles.congr alike, below.trans_le wider.2⟩

section Expand

variable (tree : shape.Rooted genesis) (isSlack : manager.reindexSlack.toNat = slack)
  (spacious : Spacious shape genesis slack (spanOf rc.store above)) {chosen : DomainHash}
  (isChosen : chosen ∈ shape.children above) (inside : ∀ node, shape.Below chosen node →
  Encloses (spanOf rc.store) shape.children node) {sizesSumBefore sizesSumAfter : UInt64}
  (few : sizesSumBefore.toNat + sizesSumAfter.toNat ≤ 2 ^ 58)

include tree isSlack spacious isChosen inside few

/-- The chosen child gets what is left between its siblings. -/
theorem expandIntervalToChosen_meets (ok : ContextOk shape rc) (isFinalReindexRoot : Bool) :
    Meets (fun rc' => ContextOk shape rc' ∧ spanOf rc'.store chosen =
    ⟨(spanOf rc.store above).lo + slack + sizesSumBefore.toNat,
    (spanOf rc.store above).hi - 1 - slack - sizesSumAfter.toNat⟩ ∧
    (∀ other, ¬ shape.Below chosen other → spanOf rc'.store other = spanOf rc.store other) ∧
    (isFinalReindexRoot = false → ∀ other, other ≠ chosen → spanOf rc'.store other =
    spanOf rc.store other) ∧ (isFinalReindexRoot = true → ∀ node, shape.Below chosen node →
    Encloses (spanOf rc'.store) shape.children node))
    (expandIntervalToChosen manager rounds rc above chosen sizesSumBefore sizesSumAfter
    isFinalReindexRoot) := by
  have bound : size shape.children genesis < 2 ^ 64 := spacious.ample.nodes_le.trans_lt (by decide)
  have slackAtMost := spacious.slack_le tree
  have pos := spacious.positive
  have limit := spacious.limit
  have wide := spacious.wide
  rw [Span.width] at wide
  have chosenIn := (tree.rooted isChosen).trans (.of_child isChosen)
  have sizeAtMost := (tree.size_le_below (.refl genesis) chosenIn).trans spacious.ample.nodes_le
  refine (harmless_span rc.store above).read fun interval read => ?_
  refine (harmless_span rc.store chosen).read fun _ readChosen => ?_
  have isSpan := interval_ok read
  have isStart : interval.start.toNat = (spanOf rc.store above).lo := congrArg Span.lo isSpan
  have isEnd : interval.end_.toNat + 1 = (spanOf rc.store above).hi := congrArg Span.hi isSpan
  have startIs : (interval.start + sizesSumBefore + manager.reindexSlack).toNat =
      (spanOf rc.store above).lo + slack + sizesSumBefore.toNat := by
    have sum : (interval.start + sizesSumBefore).toNat =
        (spanOf rc.store above).lo + sizesSumBefore.toNat := by
      rw [toNat_add_of_lt (by omega), isStart]
    rw [toNat_add_of_lt (by omega), sum, isSlack]
    omega
  have endIs : (interval.end_ - sizesSumAfter - manager.reindexSlack - 1).toNat + 1 =
      (spanOf rc.store above).hi - 1 - slack - sizesSumAfter.toNat := by
    have difference : (interval.end_ - sizesSumAfter).toNat =
        (spanOf rc.store above).hi - 1 - sizesSumAfter.toNat := by
      rw [toNat_sub_of_le (by omega)]
      omega
    have less : (interval.end_ - sizesSumAfter - manager.reindexSlack).toNat =
        (spanOf rc.store above).hi - 1 - sizesSumAfter.toNat - slack := by
      rw [toNat_sub_of_le (by omega), difference, isSlack]
    rw [toNat_sub_of_le (by rw [UInt64.toNat_one]; omega), less, UInt64.toNat_one]
    omega
  have newSpan := span_eq startIs endIs
  dsimp only
  split_ifs with hands
  · have innerStart : (interval.start + sizesSumBefore +
        manager.reindexSlack + manager.reindexSlack).toNat =
        (spanOf rc.store above).lo + slack + sizesSumBefore.toNat + slack := by
      rw [toNat_add_of_lt (by omega), startIs, isSlack]
    have innerEnd : (interval.end_ - sizesSumAfter - manager.reindexSlack -
        1 - manager.reindexSlack).toNat + 1 =
        (spanOf rc.store above).hi - 1 - slack - sizesSumAfter.toNat -
          slack := by
      rw [toNat_sub_of_le (by omega), isSlack]
      omega
    have innerSpan := span_eq innerStart innerEnd
    refine .bind (stageSpan_meets tree bound ok chosenIn (by
      rw [innerSpan]
      refine ⟨?_, ?_, ?_⟩
      · dsimp only
        omega
      · dsimp only
        omega
      · rw [Span.width]
        dsimp only
        omega)) ?_
    rintro next ⟨nextOk, placed⟩
    refine (harmless_stage next.store chosen _).read fun store stages => ?_
    rcases stageInterval_ok stages with ⟨sameShape, staged⟩
    rw [newSpan] at staged
    rw [innerSpan] at placed
    refine ⟨⟨sameShape.trans nextOk.isShape, nextOk.cached⟩, ?_, ?_, ?_, ?_⟩
    · rw [staged, update_self]
    · intro other beyond
      rw [staged, update_of_ne, placed.outside other beyond]
      rintro rfl
      exact beyond (.refl other)
    · intro notFinal
      rw [notFinal, Bool.false_and] at hands
      cases hands
    · intro _ node below
      rw [staged]
      refine encloses_update tree placed.encloses ?_ below
      rw [placed.atNode]
      exact ⟨Nat.le_add_right _ _, Nat.sub_le _ _⟩
  · refine (harmless_stage rc.store chosen _).read fun store stages => ?_
    rcases stageInterval_ok stages with ⟨sameShape, staged⟩
    rw [newSpan] at staged
    refine ⟨⟨sameShape.trans ok.isShape, ok.cached⟩, ?_, ?_, ?_, ?_⟩
    · rw [staged, update_self]
    · intro other beyond
      rw [staged, update_of_ne]
      rintro rfl
      exact beyond (.refl other)
    · intro _ other ne
      rw [staged, update_of_ne ne]
    · intro isFinal node below
      rw [isFinal, Bool.true_and, Bool.not_eq_true', Bool.not_eq_false,
        intervalContains_iff, newSpan, interval_ok readChosen] at hands
      rw [staged]
      exact encloses_update tree inside hands below

end Expand

/-! ## One round -/

section Round

variable (tree : shape.Rooted genesis) (ample : Ample slack (size shape.children genesis))
  (isSlack : manager.reindexSlack.toNat = slack)
  {chosen : DomainHash} (isChosen : chosen ∈ shape.children above)

include tree ample isSlack isChosen

/-- A round moves the state on to the chosen child, or ends there. -/
theorem concentrateInterval_meets (ok : ContextOk shape rc)
    (state : Concentrating shape genesis slack above (spanOf rc.store))
    (isFinalReindexRoot : Bool) : Meets (fun rc' => ContextOk shape rc' ∧
    (isFinalReindexRoot = false → Concentrating shape genesis slack chosen (spanOf rc'.store)) ∧
    (isFinalReindexRoot = true → Indexed shape.children genesis (fun _ => False) slack chosen
    (spanOf rc'.store))) (concentrateInterval manager rounds rc above chosen isFinalReindexRoot) :=
    by
  have spacious := state.toChained.spacious tree ample
  refine (harmless_splitChildren rc.store above chosen).read fun parts splits => ?_
  rcases parts with ⟨before, after⟩
  have split := splitChildren_ok ok.isShape splits
  have nodup := tree.nodup above
  rw [split, nodup_middle, nodup_cons, nodup_append] at nodup
  have members : ∀ node ∈ before ++ after, node ∈ shape.children above :=
    fun node isNode => (sibling_facts tree split isNode).1
  have ⟨beforeMembers, afterMembers⟩ := forall_mem_append.mp members
  refine .bind (tightenIntervalsBefore_meets tree isSlack spacious beforeMembers nodup.2.1 ok) ?_
  rintro ⟨first, _⟩ ⟨firstOk, isSumBefore, movedBefore, tilesBefore, widthsBefore⟩
  dsimp only at firstOk isSumBefore movedBefore tilesBefore widthsBefore ⊢
  have sameFirst := movedBefore.outside above fun node isNode =>
      tree.not_below (beforeMembers node isNode)
  refine .bind (tightenIntervalsAfter_meets tree isSlack
    (by rw [sameFirst]; exact spacious) afterMembers nodup.2.2.1 firstOk) ?_
  rintro ⟨second, _⟩ ⟨secondOk, isSumAfter, movedAfter, tilesAfter, widthsAfter⟩
  dsimp only at secondOk isSumAfter movedAfter tilesAfter widthsAfter ⊢
  have moved := moved_append tree members (fun node isBefore isAfter =>
    nodup.2.2.2 node isBefore node isAfter rfl) movedBefore movedAfter
  have sameSecond : spanOf second.store above = spanOf rc.store above := by
    refine moved.outside above fun node isNode => ?_
    exact tree.not_below (members node isNode)
  have sameBefore : ∀ node ∈ before, spanOf second.store node = spanOf first.store node := by
    intro node isBefore
    refine movedAfter.outside node fun peer isAfter below => ?_
    refine nodup.2.2.2 node isBefore peer isAfter ?_
    exact (tree.child_unique (afterMembers peer isAfter)
      (beforeMembers node isBefore) below (.refl node)).symm
  rw [sameFirst] at tilesAfter
  have widths : ∀ node ∈ before ++ after,
      (spanOf second.store node).width = size shape.children node := by
    intro node isNode
    rcases mem_append.mp isNode with isBefore | isAfter
    · rw [sameBefore node isBefore]
      exact widthsBefore node isBefore
    · exact widthsAfter node isAfter
  have few := spacious.sum_le tree members (nodup_append.mpr nodup.2)
  rw [map_append, sum_append] at few
  have chosenBelow : ∀ node, shape.Below chosen node → shape.Below above node ∧ node ≠ above := by
    intro node below
    refine ⟨(Below.of_child isChosen).trans below, ?_⟩
    rintro rfl
    exact tree.not_below isChosen below
  have inside : ∀ node, shape.Below chosen node →
      Encloses (spanOf second.store) shape.children node := by
    intro node below
    refine encloses_of_apart tree (before ++ after) moved.outside isChosen members nodup.1 below ?_
    exact state.inside node (chosenBelow node below).1 (chosenBelow node below).2
  refine (expandIntervalToChosen_meets tree isSlack (by rw [sameSecond]; exact spacious) isChosen
    inside (by omega) secondOk isFinalReindexRoot).imp ?_
  rintro rc' ⟨ok', atChosen, changed, kept, handedOut⟩
  rw [sameSecond] at atChosen
  have slackAtMost := spacious.slack_le tree
  have wide := spacious.wide
  have chain := chained_of_layout tree state.toChained split moved changed
    (tilesBefore.congr sameBefore) tilesAfter widths (by omega) atChosen (le_of_lt ample.two_le)
  have sameChosen : spanOf second.store chosen = spanOf rc.store chosen := by
    refine moved.outside chosen fun node isNode below => ?_
    have facts := sibling_facts tree split isNode
    exact facts.2.1 (tree.child_unique facts.1 isChosen below (.refl chosen))
  have alike : isFinalReindexRoot = false → ∀ node, shape.Below chosen node →
      ∀ child ∈ shape.children node, spanOf rc'.store child = spanOf second.store child := by
    intro notFinal node below child isChild
    refine kept notFinal child ?_
    rintro rfl
    exact tree.not_below isChild below
  refine ⟨ok', fun notFinal => ⟨chain, ?_, ?_⟩, fun isFinal => ⟨⟨?_, ?_, nofun⟩, chain.tight⟩⟩
  · rcases state.tiles with ⟨_, _, _, tiles⟩
    have bounds := tiles.bounds isChosen
    rcases inside chosen (.refl chosen) with ⟨start', stop', floor, tiles', -⟩
    rw [sameChosen] at floor
    exact ⟨start', stop', by omega, tiles'.congr (alike notFinal chosen (.refl chosen))⟩
  · intro node below ne
    exact (inside node below).congr (kept notFinal node ne) (alike notFinal node below)
  · exact chain.atGenesis
  · intro node inTree _
    by_cases below : shape.Below chosen node
    · exact handedOut isFinal node below
    · exact chain.outside node inTree below

end Round

/-! ## The walk to the new reindex root -/

section Walk

variable (tree : shape.Rooted genesis) (ample : Ample slack (size shape.children genesis))
  (isSlack : manager.reindexSlack.toNat = slack) {tip newRoot : DomainHash}

include tree

/-- The next node of the walk lies towards the selected tip. -/
theorem Concentrating.findNextAncestor {store : ReachabilityDataStore}
    (isShape : shapeOf store = shape) (state : Concentrating shape genesis slack above
    (spanOf store)) (below : shape.Below above tip) (ne : above ≠ tip) {chosen : DomainHash}
    (isOk : store.findNextAncestor tip above = .ok chosen) : chosen ∈ shape.children above ∧
    shape.Below chosen tip := by
  rcases below.cases_child with same | ⟨target, mem, path⟩
  · exact absurd same ne
  have strictly : ∀ child ∈ shape.children above, ∀ lower, shape.Below child lower →
      Encloses (spanOf store) shape.children lower := by
    intro child isChild lower under
    refine state.inside lower ((Below.of_child isChild).trans under) ?_
    rintro rfl
    exact tree.not_below isChild under
  rcases state.tiles with ⟨_, _, pos, tiles⟩
  have isTarget := findNextAncestor_ok isShape tiles pos (fun child isChild =>
      have isChild := dropLast_subset _ isChild
      (strictly child isChild child (.refl child)).nonempty)
    mem
    (contains_of_below (fun lower under _ => strictly target mem lower under) path)
    (strictly target mem tip path).nonempty isOk
  rw [isTarget]
  exact ⟨mem, path⟩

include ample isSlack

theorem concentrateTowards_meets (steps : Nat) (ok : ContextOk shape rc)
    (state : Concentrating shape genesis slack above (spanOf rc.store))
    (toRoot : shape.Below above newRoot) (notYet : above ≠ newRoot)
    (toTip : shape.Below newRoot tip) : Meets (fun rc' => ContextOk shape rc' ∧
    Indexed shape.children genesis (fun _ => False) slack newRoot (spanOf rc'.store))
    (concentrateTowards manager rounds tip newRoot steps rc above) := by
  induction steps generalizing rc above with
  | zero => exact not_false
  | succ steps ih =>
    refine (harmless_findNext rc.store tip above).read fun chosen finds => ?_
    have notTip : above ≠ tip := by
      rintro rfl
      exact notYet (tree.antisymm state.inTree toRoot toTip)
    rcases state.findNextAncestor tree ok.isShape (toRoot.trans toTip)
      notTip finds with ⟨isChosen, chosenToTip⟩
    have chosenToRoot : shape.Below chosen newRoot := by
      rcases toRoot.cases_child with same | ⟨_, mem, path⟩
      · exact absurd same notYet
      · rw [tree.child_unique isChosen mem chosenToTip (path.trans toTip)]
        exact path
    refine .bind (concentrateInterval_meets tree ample isSlack isChosen ok state _) ?_
    rintro _ ⟨nextOk, goesOn, ends⟩
    split_ifs with isRoot
    · rw [← isRoot]
      exact ⟨nextOk, ends (decide_eq_true isRoot)⟩
    · exact ih nextOk (goesOn (decide_eq_false isRoot)) chosenToRoot isRoot

end Walk

/-! ## `UpdateReindexRoot` -/

section Update

variable {root tip : DomainHash} {dataStore : GHOSTDAGDataStore}
  {store store' : ReachabilityDataStore}

/-- The walk may start at any node above the reindex root. -/
theorem concentrating_of_indexed {span : DomainHash → Span} (inTree : shape.Below genesis above)
    (index : Indexed shape.children genesis (fun _ => False) slack above span) :
    Concentrating shape genesis slack above span := by
  have bounds := index.bounds inTree
  refine ⟨⟨inTree, index.atGenesis, fun node nodeIn _ => index.encloses node nodeIn not_false,
    index.tight, bounds.1, bounds.2.2⟩, ?_, ?_⟩
  · rcases index.encloses above inTree not_false with ⟨start, stop, floor, tiles, -⟩
    exact ⟨start, stop, bounds.1.trans floor, tiles⟩
  · intro node below _
    exact index.encloses node (inTree.trans below) not_false

section Search

variable (isShape : shapeOf store = shape)
  (nested : Nested shape.children genesis (fun _ => False) (spanOf store))

include isShape nested

/-- The descent stays on the chain to the selected tip. -/
theorem descendToWindow_ok {tipBlueScore : UInt64} (steps : Nat)
    {start result : DomainHash} (inTree : shape.Below genesis start) (toTip : shape.Below start tip)
    (isOk : descendToWindow manager dataStore store tip tipBlueScore steps start = .ok result) :
    shape.Below start result ∧ shape.Below result tip := by
  induction steps generalizing start with
  | zero => cases isOk
  | succ steps ih =>
    rcases ok_of_bind isOk with ⟨chosen, finds, isOk⟩
    have ne : start ≠ tip := by
      rintro rfl
      rw [ReachabilityDataStore.findNextAncestor, if_pos rfl] at finds
      cases finds
    rcases nested.findNextAncestor isShape inTree toTip ne
      (fun _ _ => not_false) not_false finds with ⟨mem, chosenToTip⟩
    have further : descendToWindow manager dataStore store tip tipBlueScore steps chosen =
          .ok result → shape.Below start result ∧ shape.Below result tip := by
      intro rest
      rcases ih (inTree.trans (.of_child mem)) chosenToTip rest with ⟨below, toTip⟩
      exact ⟨(Below.of_child mem).trans below, toTip⟩
    cases found : dataStore chosen with
    | none =>
      rw [found] at isOk
      split_ifs at isOk
      · cases isOk
        exact ⟨.refl _, toTip⟩
      · exact further isOk
    | some data =>
      rw [found] at isOk
      dsimp only at isOk
      split_ifs at isOk
      · cases isOk
        exact ⟨.refl _, toTip⟩
      · exact further isOk

/-- The root stays, or the walk goes from above it towards the tip. -/
theorem findNextReindexRoot_ok (tree : shape.Rooted genesis) (rootIn : shape.Below genesis root)
    (tipIn : shape.Below genesis tip) {upper newRoot : DomainHash}
    (isOk : findNextReindexRoot manager rounds dataStore store root tip = .ok (upper, newRoot)) :
    newRoot = root ∨ (shape.Below upper root ∧ shape.Below upper newRoot ∧
    shape.Below newRoot tip) := by
  rw [findNextReindexRoot] at isOk
  cases foundTip : dataStore tip with
  | none =>
    rw [foundTip] at isOk
    cases isOk
  | some tipData =>
    rw [foundTip] at isOk
    rcases ok_of_bind isOk with ⟨isAbove, tests, isOk⟩
    by_cases above : isAbove = true
    · rw [if_pos above] at isOk
      rcases ok_of_bind isOk with ⟨result, descends, isOk⟩
      cases isOk
      have toTip := (nested.below_iff rootIn tipIn not_false).mpr
        ((treeAncestorOf_ok tests).mp above)
      rcases descendToWindow_ok isShape nested rounds rootIn toTip descends with ⟨below, newToTip⟩
      exact .inr ⟨.refl root, below, newToTip⟩
    · rw [if_neg above] at isOk
      cases foundRoot : dataStore root with
      | none =>
        rw [foundRoot] at isOk
        cases isOk
      | some rootData =>
        rw [foundRoot] at isOk
        dsimp only at isOk
        split_ifs at isOk with near
        · cases isOk
          exact .inl rfl
        rcases ok_of_bind isOk with ⟨common, finds, isOk⟩
        rcases ok_of_bind isOk with ⟨result, descends, isOk⟩
        rcases findCommonAncestor_ok tree isShape rounds finds with ⟨toTip, contains⟩
        have commonIn : shape.Below genesis common := by
          rcases toTip.cases_child with rfl | ⟨_, mem, -⟩
          · exact tipIn
          · exact tree.rooted mem
        rcases descendToWindow_ok isShape nested rounds commonIn toTip
          descends with ⟨below, newToTip⟩
        cases isOk
        exact .inr ⟨(nested.below_iff commonIn rootIn not_false).mpr contains, below, newToTip⟩

end Search

/-- Only the reindex root of the shape may have changed. -/
structure SameShape (store store' : ReachabilityDataStore) : Prop where
  children : (shapeOf store').children = (shapeOf store).children
  parent : (shapeOf store').parent = (shapeOf store).parent
  covering : (shapeOf store').covering = (shapeOf store).covering

variable {blocks : List DomainHash}

theorem store_stageRoot (sound : IndexedStore slack blocks store)
    (sameShape : shapeOf store' = shapeOf store) (rootIn : root ∈ blocks)
    (index : Indexed (shapeOf store).children virtualGenesisBlockHash (fun _ => False) slack root
    (spanOf store')) : IndexedStore slack blocks (store'.stageReindexRoot root) ∧
    SameShape store (store'.stageReindexRoot root) := by
  have alike : (shapeOf (store'.stageReindexRoot root)).children = (shapeOf store).children := by
    change (shapeOf store').children = _
    rw [sameShape]
  have sameParent : (shapeOf (store'.stageReindexRoot root)).parent = (shapeOf store).parent := by
    change (shapeOf store').parent = _
    rw [sameShape]
  refine ⟨⟨?_, ?_, root, rfl, rootIn, ?_⟩, alike, sameParent, ?_⟩
  · rw [alike, sameParent]
    exact sound.tree
  · rw [alike]
    exact sound.nodes
  · rw [alike]
    exact index
  · change (shapeOf store').covering = _
    rw [sameShape]

section

variable (sound : IndexedStore slack blocks store) (ample : Ample slack blocks.length)
  (isSlack : manager.reindexSlack.toNat = slack) (tipIn : tip ∈ blocks)
  (hasData : ∀ root, store.reachabilityReindexRoot = some root → root ≠ tip →
  (dataStore root).isSome)

include sound ample isSlack tipIn hasData

/--
`UpdateReindexRoot` keeps the tree indexed, if it finds GHOSTDAG data for the
reindex root it moves.
-/
theorem updateRoot_meets : Meets (fun store' => IndexedStore slack blocks store' ∧
    SameShape store store') (updateReindexRoot manager rounds dataStore store tip) := by
  rcases sound.indexed with ⟨root, isRoot, rootIn, index⟩
  have tree := sound.tree
  have rootBelow := (sound.nodes root).mpr rootIn
  have tipBelow := (sound.nodes tip).mpr tipIn
  have kept : IndexedStore slack blocks store ∧ SameShape store store := ⟨sound, rfl, rfl, rfl⟩
  refine (harmless_reindexRoot store).read fun _ readRoot => ?_
  have isCurrent := reindexRoot_ok rfl readRoot
  rw [isRoot] at isCurrent
  cases isCurrent
  by_cases isTip : root = tip
  · rw [if_pos isTip]
    exact kept
  rw [if_neg isTip]
  rcases Option.isSome_iff_exists.mp (hasData root isRoot isTip) with ⟨data, found⟩
  rw [found]
  refine (harmless_findNextReindexRoot manager dataStore store
    rounds root tip).read fun result finds => ?_
  rcases result with ⟨upper, newRoot⟩
  dsimp only
  by_cases stays : root = newRoot
  · rw [if_pos stays]
    exact kept
  rw [if_neg stays]
  rcases findNextReindexRoot_ok rfl index.toNested tree rootBelow
    tipBelow finds with same | ⟨toRoot, toNew, newToTip⟩
  · exact absurd same.symm stays
  have upperIn : (shapeOf store).Below virtualGenesisBlockHash upper := by
    rcases toRoot.cases_child with rfl | ⟨_, mem, -⟩
    · exact rootBelow
    · exact tree.rooted mem
  have newIn := (sound.nodes newRoot).mp (upperIn.trans toNew)
  have raised : Indexed (shapeOf store).children virtualGenesisBlockHash
      (fun _ => False) slack upper (spanOf store) := by
    refine ⟨index.toNested, fun node inTree below ne => ?_⟩
    have tight := index.tight node inTree (below.trans toRoot) (by
      rintro rfl
      exact ne (tree.antisymm inTree below toRoot))
    refine ⟨tight.1, fun child mem besides => tight.2 child mem fun path => ?_⟩
    rcases below.cases_child with same | ⟨_, isNext, rest⟩
    · exact ne same
    · rw [tree.child_unique mem isNext path (rest.trans toRoot)] at besides
      exact besides rest
  by_cases isAncestor : newRoot = upper
  · rw [if_pos isAncestor]
    rw [isAncestor] at newIn ⊢
    exact store_stageRoot sound rfl newIn raised
  rw [if_neg isAncestor]
  have ok : ContextOk (shapeOf store) (newReindexContext store) := ⟨rfl, sizesCached_empty⟩
  refine .bind (concentrateTowards_meets tree (ample.mono (size_le_length
      fun block => (sound.nodes block).mp)) isSlack rounds ok
    (concentrating_of_indexed upperIn raised) toNew (Ne.symm isAncestor) newToTip) ?_
  rintro _ ⟨ok', indexed'⟩
  exact store_stageRoot sound ok'.isShape newIn indexed'

theorem updateReindexRoot_ok (isOk : updateReindexRoot manager rounds dataStore store tip =
    .ok store') : IndexedStore slack blocks store' ∧ SameShape store store' :=
  (updateRoot_meets sound ample isSlack tipIn hasData).of_ok isOk

end

end Update

end Htnd.Reachability.Concentrate
