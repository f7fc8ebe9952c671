import Htnd.Reachability.Propagate

/-!
# Queries on an indexed tree

What the queries of the tree return where spans tile and enclose: the next
node towards a descendant, found by binary search among the children; the
common ancestor; the split of the children at a pivot; and the slack before
the first and after the last child.
-/

namespace Htnd.Reachability.Ancestors

open Lib.Fallible Lib.RootedTree Lib.SpanTree Utxo.Entry Reachability.Interval
open Reachability.Tree Shape List

variable {store : ReachabilityDataStore} {shape : TreeShape} {node other : DomainHash}

/-- A span that does not start at zero belongs to a stored interval. -/
theorem interval_pos (pos : 1 ≤ (spanOf store node).lo) :
    ∃ interval, store.interval node = .ok interval := by
  rw [ReachabilityDataStore.interval, ReachabilityDataStore.reachabilityData]
  rw [spanOf, dataOf] at pos
  cases lookup : store.data.lookup node with
  | none =>
    rw [lookup] at pos
    exact absurd pos (Nat.not_succ_le_zero 0)
  | some data =>
    rw [lookup, Option.getD_some] at pos
    cases stored : data.interval with
    | none =>
      rw [stored] at pos
      exact absurd pos (Nat.not_succ_le_zero 0)
    | some interval =>
      refine ⟨interval, ?_⟩
      cases data with
      | mk _ _ _ _ =>
        cases stored
        rfl

/-- The interval test compares spans. -/
theorem treeAncestorOf_ok {answer : Bool} (isOk : store.isReachabilityTreeAncestorOf node other =
    .ok answer) : answer = true ↔ (spanOf store node).Contains (spanOf store other) := by
  rcases ok_of_bind isOk with ⟨_, nodeRead, rest⟩
  rcases ok_of_bind rest with ⟨_, otherRead, result⟩
  cases result
  rw [intervalContains_iff, interval_ok nodeRead, interval_ok otherRead]

theorem treeAncestorOf_of_pos (nodePositive : 1 ≤ (spanOf store node).lo)
    (otherPositive : 1 ≤ (spanOf store other).lo) :
    ∃ answer, store.isReachabilityTreeAncestorOf node other = .ok answer := by
  rcases interval_pos nodePositive with ⟨nodeInterval, nodeRead⟩
  rcases interval_pos otherPositive with ⟨otherInterval, otherRead⟩
  refine ⟨intervalContains nodeInterval otherInterval, ?_⟩
  rw [ReachabilityDataStore.isReachabilityTreeAncestorOf, nodeRead]
  rw [otherRead]
  rfl

/-! ## Binary search -/

/-- The search ends between the nodes that start early enough and the rest. -/
theorem searchByIntervalEnd_ok {front back : List DomainHash} {end_ : UInt64}
    (early : ∀ node ∈ front, (spanOf store node).lo ≤ end_.toNat)
    (late : ∀ node ∈ back, end_.toNat < (spanOf store node).lo) (rounds : Nat)
    {low high result : Nat} (lowLe : low ≤ front.length) (leHigh : front.length ≤ high)
    (isOk : store.searchByIntervalEnd (front ++ back) end_ rounds low high = .ok result) :
    result = front.length := by
  fun_induction store.searchByIntervalEnd (front ++ back) end_ rounds low high with
  | case1 | case3 => cases isOk
  | case2 | case5 =>
    cases isOk
    omega
  | case4 rounds low high narrower middle middleNode found ihBelow ihAbove =>
    rcases ok_of_bind isOk with ⟨middleInterval, read, rest⟩
    have isStart : middleInterval.start.toNat = (spanOf store middleNode).lo :=
      congrArg Span.lo (interval_ok read)
    by_cases inFront : middle < front.length
    · rw [List.getElem?_append_left inFront] at found
      have atMost := early middleNode (mem_of_getElem? found)
      rw [if_neg (by
        rw [UInt64.lt_iff_toNat_lt]
        omega)] at rest
      exact ihAbove (by omega) leHigh rest
    · rw [List.getElem?_append_right (by omega)] at found
      have above := late middleNode (mem_of_getElem? found)
      rw [if_pos (by
        rw [UInt64.lt_iff_toNat_lt, isStart]
        exact above)] at rest
      exact ihBelow lowLe (by omega) rest

variable {result target : DomainHash} {before after : List DomainHash}

/-- The last node that starts early enough. -/
theorem findAncestorOfNode_ok
    (early : ∀ node ∈ before ++ [target], (spanOf store node).lo < (spanOf store other).hi)
    (late : ∀ node ∈ after, (spanOf store other).hi ≤ (spanOf store node).lo)
    (isOk : store.findAncestorOfNode (before ++ target :: after) other = some result) :
    result = target := by
  rw [ReachabilityDataStore.findAncestorOfNode] at isOk
  cases search : store.findAncestorIndexOfNode (before ++ target :: after) other with
  | error err =>
    rw [search] at isOk
    cases isOk
  | ok index =>
    rcases ok_of_bind search with ⟨interval, read, searchEnd⟩
    have isEnd : interval.end_.toNat + 1 = (spanOf store other).hi :=
      congrArg Span.hi (interval_ok read)
    rcases ok_of_bind searchEnd with ⟨_, searched, isIndex⟩
    have split : before ++ target :: after = (before ++ [target]) ++ after := by
      rw [append_assoc, singleton_append]
    rw [split] at searched
    have atFront := searchByIntervalEnd_ok (fun node mem => by
        have := early node mem
        omega)
      (fun node mem => by
        have := late node mem
        omega)
      _ (Nat.zero_le _) (by simp) searched
    rw [atFront, length_append] at isIndex
    cases isIndex
    rw [search] at isOk
    dsimp only at isOk
    rw [List.getElem?_append_right le_rfl, Nat.sub_self] at isOk
    cases isOk
    rfl

variable {nodes : List DomainHash}

/-- Only the last node of a tiling may be empty for the starts to increase. -/
theorem pairwise_startsBefore {start stop : Nat}
    (tiles : Tiles (spanOf store) start nodes stop) (pos : 1 ≤ start)
    (nonempty : ∀ node ∈ nodes.dropLast, (spanOf store node).lo < (spanOf store node).hi) :
    nodes.Pairwise fun first second => store.startsBefore first second := by
  induction nodes generalizing start with
  | nil => exact List.Pairwise.nil
  | cons node nodes ih =>
    cases nodes with
    | nil => exact pairwise_singleton _ node
    | cons next nodes =>
      have increases := nonempty node (.head _)
      have atStart := tiles.1
      have nextPositive : 1 ≤ (spanOf store node).hi := by omega
      refine List.Pairwise.cons ?_ (ih tiles.2.2 nextPositive
        fun other mem => nonempty other (.tail node mem))
      intro later isLater
      have bounds := tiles.2.2.bounds isLater
      rcases interval_pos (by omega : 1 ≤ (spanOf store node).lo) with ⟨first, firstRead⟩
      rcases interval_pos (by omega : 1 ≤ (spanOf store later).lo) with ⟨second, secondRead⟩
      have firstStart : first.start.toNat = (spanOf store node).lo :=
        congrArg Span.lo (interval_ok firstRead)
      have secondStart : second.start.toNat = (spanOf store later).lo :=
        congrArg Span.lo (interval_ok secondRead)
      rw [ReachabilityDataStore.startsBefore, firstRead, secondRead]
      dsimp only
      rw [decide_eq_true_eq, UInt64.lt_iff_toNat_lt]
      omega

/-- `FindNextAncestor` returns the child whose span holds the descendant's. -/
theorem findNextAncestor_ok (isShape : shapeOf store = shape) {lower upper : DomainHash}
    {start stop : Nat} (tiles : Tiles (spanOf store) start (shape.children upper) stop)
    (pos : 1 ≤ start) (nonempty : ∀ node ∈ (shape.children upper).dropLast,
    (spanOf store node).lo < (spanOf store node).hi) (mem : target ∈ shape.children upper)
    (contains : (spanOf store target).Contains (spanOf store lower))
    (descendantNonempty : (spanOf store lower).lo < (spanOf store lower).hi)
    (isOk : store.findNextAncestor lower upper = .ok result) : result = target := by
  rw [ReachabilityDataStore.findNextAncestor] at isOk
  split_ifs at isOk
  rcases ok_of_bind isOk with ⟨_, reads, rest⟩
  rw [← children_ok isShape reads, List.Pairwise.insertionSort_eq
    (pairwise_startsBefore tiles pos nonempty)] at rest
  rcases append_of_mem mem with ⟨before, after, split⟩
  rw [split] at rest tiles
  dsimp only at rest
  rcases tiles_append.mp tiles with ⟨_, left, _, -, right⟩
  have lowest := contains.1
  have highest := contains.2
  cases found : store.findAncestorOfNode (before ++ target :: after) lower with
  | none =>
    rw [found] at rest
    cases rest
  | some next =>
    rw [found] at rest
    cases rest
    refine findAncestorOfNode_ok ?_ ?_ found
    · intro node isNode
      rcases mem_append.mp isNode with inBefore | isTarget
      · have bounds := left.bounds inBefore
        omega
      · rw [mem_singleton.mp isTarget]
        omega
    · intro node inAfter
      exact highest.trans (right.bounds inAfter).1

/-- `findCommonAncestor` walks up to the first node that contains the root. -/
theorem findCommonAncestor_ok {genesis : DomainHash} (tree : shape.Rooted genesis)
    (isShape : shapeOf store = shape) (rounds : Nat) {here root : DomainHash}
    (isOk : store.findCommonAncestor rounds here root = .ok result) : shape.Below result here ∧
    (spanOf store result).Contains (spanOf store root) := by
  induction rounds generalizing here with
  | zero => cases isOk
  | succ rounds ih =>
    rcases ok_of_bind isOk with ⟨_, tested, rest⟩
    split_ifs at rest with contains
    · cases rest
      exact ⟨.refl _, (treeAncestorOf_ok tested).mp contains⟩
    rcases ok_of_bind rest with ⟨found, read, rest⟩
    have link := parent_ok isShape read
    cases found with
    | none => cases rest
    | some parent =>
      rcases ih rest with ⟨below, contains⟩
      exact ⟨below.trans (.of_child (tree.mem_children.mpr link)), contains⟩

variable {pivot : DomainHash}

theorem splitAtPivot_ok (isOk : ReachabilityDataStore.splitAtPivot pivot nodes =
    .ok (before, after)) : nodes = before ++ pivot :: after := by
  induction nodes generalizing before with
  | nil => cases isOk
  | cons child nodes ih =>
    rw [ReachabilityDataStore.splitAtPivot] at isOk
    split_ifs at isOk with same
    · cases isOk
      rw [same]
      rfl
    · rcases ok_of_bind isOk with ⟨_, splits, result⟩
      cases result
      rw [ih splits]
      rfl

theorem splitChildren_ok (isShape : shapeOf store = shape)
    (isOk : store.splitChildren node pivot = .ok (before, after)) : shape.children node =
    before ++ pivot :: after := by
  rcases ok_of_bind isOk with ⟨_, reads, splits⟩
  rw [children_ok isShape reads]
  exact splitAtPivot_ok splits

/-! ## Slack -/

section Slack

variable (isShape : shapeOf store = shape) {start stop : Nat}
  (tiles : Tiles (spanOf store) start (shape.children node) stop) (pos : 1 ≤ (spanOf store node).lo)
  (limit : (spanOf store node).hi < 2 ^ 64) (floor : (spanOf store node).lo ≤ start)
  (atMost : stop < (spanOf store node).hi)

include isShape tiles pos limit floor atMost

/-- What remains after the children; without children, all of the range. -/
theorem remainingIntervalAfter_ok
    (isLeaf : shape.children node = [] → stop = (spanOf store node).lo)
    {interval : ReachabilityInterval} (isOk : store.remainingIntervalAfter node = .ok interval) :
    interval.span = ⟨stop, (spanOf store node).hi - 1⟩ := by
  have upward := tiles.le
  rcases ok_of_bind isOk with ⟨_, isRange, rest⟩
  have rangeIs := intervalRange_ok (by omega) isRange
  rcases ok_of_bind rest with ⟨_, reads, rest⟩
  rw [← children_ok isShape reads] at rest
  cases last : (shape.children node).getLast? with
  | none =>
    rw [last] at rest
    cases rest
    rw [rangeIs, isLeaf (List.getLast?_eq_none_iff.mp last)]
  | some lastChild =>
    rw [last] at rest
    rcases ok_of_bind rest with ⟨lastInterval, lastRead, result⟩
    cases result
    rcases List.getLast?_eq_some_iff.mp last with ⟨_, split⟩
    rw [split] at tiles
    rcases tiles_append.mp tiles with ⟨_, -, -, -, atStop⟩
    have lastIs : lastInterval.end_.toNat + 1 = stop :=
      (congrArg Span.hi (interval_ok lastRead)).trans atStop
    refine span_eq ?_ (congrArg Span.hi rangeIs)
    rw [toNat_add_of_lt (by rw [UInt64.toNat_one]; omega)]
    exact lastIs

variable {slack : UInt64}

theorem remainingSlackAfter_ok (inner : shape.children node ≠ [])
    (isOk : store.remainingSlackAfter node = .ok slack) : slack.toNat = (spanOf store node).hi - 1 -
    stop := by
  have upward := tiles.le
  rcases ok_of_bind isOk with ⟨_, rest, result⟩
  cases result
  have isSpan := remainingIntervalAfter_ok isShape tiles pos limit
    floor atMost (fun isNil => absurd isNil inner) rest
  rw [toNat_size (by rw [isSpan]; dsimp only; omega) (by rw [isSpan]; dsimp only; omega), isSpan]
  rfl

theorem remainingSlackBefore_ok (inner : shape.children node ≠ [])
    (isOk : store.remainingSlackBefore node = .ok slack) :
    slack.toNat = start - (spanOf store node).lo := by
  have upward := tiles.le
  rcases ok_of_bind isOk with ⟨_, remaining, result⟩
  cases result
  rcases ok_of_bind remaining with ⟨range, isRange, rest⟩
  have rangeIs := intervalRange_ok (by omega) isRange
  rcases ok_of_bind rest with ⟨listed, reads, rest⟩
  rw [← children_ok isShape reads] at rest
  cases listed : shape.children node with
  | nil => exact absurd listed inner
  | cons firstChild others =>
    rw [listed] at rest tiles
    rcases ok_of_bind rest with ⟨firstInterval, firstRead, result⟩
    cases result
    have firstIs : firstInterval.start.toNat = start :=
      (congrArg Span.lo (interval_ok firstRead)).trans tiles.1
    have isSpan : (ReachabilityInterval.mk range.start (firstInterval.start - 1)).span =
        ⟨(spanOf store node).lo, start⟩ := by
      refine span_eq (congrArg Span.lo rangeIs) ?_
      rw [toNat_sub_of_le (by rw [UInt64.toNat_one]; omega), UInt64.toNat_one]
      omega
    rw [toNat_size (by rw [isSpan]; exact pos) (by rw [isSpan]; exact floor), isSpan]
    rfl

end Slack

end Htnd.Reachability.Ancestors
