import Htnd.Reachability.Tree

/-!
# Reindexing

The model of the reindex context.  Subtree sizes are counted by a
breadth-first walk that pushes finished sizes up the parent pointers, and
intervals are handed out from a node to its subtree by another one.  A child
that finds no room makes its first ancestor with enough room hand out its
interval again, or, beside the chain to the reindex root, reclaims slack along
that chain.  Moving the reindex root concentrates the intervals towards it.

Reclaiming before and after the chain are one definition here, given the side.
-/

namespace Htnd.Reachability.Reindex

open Lib.RangeLoops Utxo.Entry Reachability.Interval Reachability.Tree

/-- The constants of a reachability manager and the arithmetic of its shares. -/
structure ReachabilityManager where
  reindexSlack : UInt64
  reindexWindow : UInt64
  roundedShares : RoundedShares

/-- `reindexContext`, with the store it works on. -/
structure ReindexContext where
  store : ReachabilityDataStore
  subTreeSizesCache : FiniteMap DomainHash UInt64

def newReindexContext (store : ReachabilityDataStore) : ReindexContext := ⟨store, ∅⟩

/-- A size in the cache; a missing one reads as zero. -/
def cachedSize (sizes : FiniteMap DomainHash UInt64) (blockHash : DomainHash) : UInt64 :=
  (sizes.lookup blockHash).getD 0

/-! ## Counting subtrees -/

/-- The maps `countSubtrees` fills. -/
structure Counting where
  calculatedChildrenCount : FiniteMap DomainHash Nat
  subTreeSizesCache : FiniteMap DomainHash UInt64

namespace Counting

def childrenCount (counting : Counting) (blockHash : DomainHash) : Nat :=
  (counting.calculatedChildrenCount.lookup blockHash).getD 0

def countChild (counting : Counting) (blockHash : DomainHash) : Counting :=
  { counting with
    calculatedChildrenCount := counting.calculatedChildrenCount.insert
      blockHash (counting.childrenCount blockHash + 1) }

def setSize (counting : Counting) (blockHash : DomainHash) (size : UInt64) : Counting :=
  { counting with
    subTreeSizesCache := counting.subTreeSizesCache.insert blockHash size }

end Counting

/-- The inner loop of `countSubtrees`: push a finished size up. -/
def pushUp (store : ReachabilityDataStore) (node : DomainHash) :
    Nat → DomainHash → Counting → Except ReachabilityError Counting
  | 0, _, _ => .error .unfinished
  | rounds + 1, current, counting =>
    if current = node then .ok counting
    else do
      match ← store.parent current with
      | none => return counting
      | some current =>
        let counting := counting.countChild current
        let children ← store.children current
        if counting.childrenCount current ≠ children.length then
          return counting
        else
          let childSubtreeSizeSum := (children.map (cachedSize counting.subTreeSizesCache)).sum
          pushUp store node rounds current (counting.setSize current (childSubtreeSizeSum + 1))

/-- The queue loop of `countSubtrees`. -/
def countQueue (store : ReachabilityDataStore) (node : DomainHash)
    (pushRounds : Nat) : Nat → List DomainHash → Counting → Except ReachabilityError Counting
  | _, [], counting => .ok counting
  | 0, _ :: _, _ => .error .unfinished
  | rounds + 1, current :: queue, counting => do
    let children ← store.children current
    if children = [] then
      let counting ← pushUp store node pushRounds current (counting.setSize current 1)
      countQueue store node pushRounds rounds queue counting
    else if (counting.subTreeSizesCache.lookup current).isSome then
      let counting ← pushUp store node pushRounds current counting
      countQueue store node pushRounds rounds queue counting
    else
      countQueue store node pushRounds rounds (queue ++ children) counting

section Reindexing

variable (manager : ReachabilityManager) (rounds : Nat)

def countSubtrees (rc : ReindexContext) (node : DomainHash) :
    Except ReachabilityError ReindexContext :=
  if (rc.subTreeSizesCache.lookup node).isSome then .ok rc
  else do
    let counting ← countQueue rc.store node rounds rounds [node] ⟨∅, rc.subTreeSizesCache⟩
    return { rc with subTreeSizesCache := counting.subTreeSizesCache }

/-! ## Handing out intervals -/

/-- Stage the intervals of the children, one by one. -/
def stageIntervals (store : ReachabilityDataStore) : List DomainHash → List ReachabilityInterval →
    Except ReachabilityError ReachabilityDataStore
  | [], _ => .ok store
  | _ :: _, [] => .error .indexOutOfRange
  | child :: children, interval :: intervals => do
    let store ← store.stageInterval child interval
    stageIntervals store children intervals

/-- The queue loop of `propagateInterval`. -/
def propagateQueue (sizes : FiniteMap DomainHash UInt64) :
    Nat → List DomainHash → ReachabilityDataStore → Except ReachabilityError ReachabilityDataStore
  | _, [], store => .ok store
  | 0, _ :: _, _ => .error .unfinished
  | rounds + 1, current :: queue, store => do
    let children ← store.children current
    if children = [] then propagateQueue sizes rounds queue store
    else
      let interval ← store.intervalRangeForChildAllocation current
      let intervals ← intervalSplitWithExponentialBias
        manager.roundedShares interval (children.map (cachedSize sizes))
      let store ← stageIntervals store children intervals
      propagateQueue sizes rounds (queue ++ children) store

def propagateInterval (rc : ReindexContext) (node : DomainHash) :
    Except ReachabilityError ReindexContext := do
  let rc ← countSubtrees rounds rc node
  let store ← propagateQueue manager rc.subTreeSizesCache rounds [node] rc.store
  return { rc with store }

/-- Stage a new interval for a node and hand it out to the subtree. -/
def stageAndPropagate (rc : ReindexContext) (node : DomainHash) (interval : ReachabilityInterval) :
    Except ReachabilityError ReindexContext := do
  let store ← rc.store.stageInterval node interval
  propagateInterval manager rounds { rc with store } node

/-! ## Reclaiming slack along the chain to the reindex root -/

/-- The side of the chain on which slack is reclaimed. -/
structure ReclaimSide where
  remainingSlack : ReachabilityDataStore → DomainHash → Except ReachabilityError UInt64
  shrink : ReachabilityInterval → UInt64 → ReachabilityInterval
  siblings : List DomainHash × List DomainHash → List DomainHash
  grow : ReachabilityInterval → UInt64 → ReachabilityInterval
  move : ReachabilityInterval → UInt64 → ReachabilityInterval

/-- Before the chain; the siblings are taken from the last to the first. -/
def sideBefore : ReclaimSide where
  remainingSlack := ReachabilityDataStore.remainingSlackBefore
  shrink := intervalIncreaseStart
  siblings split := split.1.reverse
  grow := intervalIncreaseEnd
  move := intervalIncrease

def sideAfter : ReclaimSide where
  remainingSlack := ReachabilityDataStore.remainingSlackAfter
  shrink := intervalDecreaseEnd
  siblings split := split.2
  grow := intervalDecreaseStart
  move := intervalDecrease

/-- The loop of `offsetSiblingsBefore` and `offsetSiblingsAfter`. -/
def offsetEach (side : ReclaimSide) (allocationNode : DomainHash)
    (offset : UInt64) : List DomainHash → ReindexContext → Except ReachabilityError ReindexContext
  | [], rc => .ok rc
  | sibling :: siblings, rc => do
    let previousInterval ← rc.store.interval sibling
    if sibling = allocationNode then
      stageAndPropagate manager rounds rc sibling (side.grow previousInterval offset)
    else
      let rc ← stageAndPropagate manager rounds rc sibling (side.move previousInterval offset)
      offsetEach side allocationNode offset siblings rc

/-- `offsetSiblingsBefore` and `offsetSiblingsAfter`. -/
def offsetSiblings (side : ReclaimSide) (rc : ReindexContext)
    (allocationNode current : DomainHash) (offset : UInt64) :
    Except ReachabilityError ReindexContext := do
  match ← rc.store.parent current with
  | none => .error .nilHash
  | some parent =>
    let split ← rc.store.splitChildren parent current
    offsetEach manager rounds side allocationNode offset (side.siblings split) rc

def offsetSiblingsBefore := offsetSiblings manager rounds sideBefore

def offsetSiblingsAfter := offsetSiblings manager rounds sideAfter

/--
The first loop of `reclaimIntervalBefore` and `reclaimIntervalAfter`, from the
chosen child towards the reindex root: the node where it stopped, and the slack
to leave at the nodes it passed.
-/
def reclaimUp (side : ReclaimSide) (allocationNode reindexRoot : DomainHash)
    (requiredAllocation : UInt64) : Nat → ReindexContext → DomainHash → UInt64 → UInt64 →
    Except ReachabilityError (ReindexContext × DomainHash × UInt64)
  | 0, _, _, _, _ => .error .unfinished
  | steps + 1, rc, current, slackSum, pathLen =>
    if current = reindexRoot then do
      let previousInterval ← rc.store.interval current
      let offset := requiredAllocation + manager.reindexSlack * pathLen - slackSum
      let rc ← stageAndPropagate manager rounds rc current (side.shrink previousInterval offset)
      let rc ← offsetSiblings manager rounds side rc allocationNode current offset
      return (rc, current, manager.reindexSlack)
    else do
      let slackBesideCurrent ← side.remainingSlack rc.store current
      let slackSum := slackSum + slackBesideCurrent
      if slackSum ≥ requiredAllocation then
        let previousInterval ← rc.store.interval current
        let offset := slackBesideCurrent - (slackSum - requiredAllocation)
        let store ← rc.store.stageInterval current (side.shrink previousInterval offset)
        let rc ← offsetSiblings manager rounds side { rc with store }
          allocationNode current offset
        return (rc, current, 0)
      else
        let next ← rc.store.findNextAncestor reindexRoot current
        reclaimUp side allocationNode reindexRoot requiredAllocation steps
          rc next slackSum (pathLen + 1)

/--
The second loop, back to the common ancestor: every node gives up its slack
but for the part that is to be left.
-/
def reclaimDown (side : ReclaimSide)
    (allocationNode commonAncestor : DomainHash) (pathSlackAlloc : UInt64) :
    Nat → ReindexContext → DomainHash → Except ReachabilityError ReindexContext
  | 0, _, _ => .error .unfinished
  | steps + 1, rc, current => do
    match ← rc.store.parent current with
    | none => .error .nilHash
    | some current =>
      if current = commonAncestor then return rc
      else
        let originalInterval ← rc.store.interval current
        let slackBesideCurrent ← side.remainingSlack rc.store current
        let offset := slackBesideCurrent - pathSlackAlloc
        let store ← rc.store.stageInterval current (side.shrink originalInterval offset)
        let rc ← offsetSiblings manager rounds side { rc with store }
          allocationNode current offset
        reclaimDown side allocationNode commonAncestor pathSlackAlloc steps rc current

/-- `reclaimIntervalBefore` and `reclaimIntervalAfter`. -/
def reclaimInterval (side : ReclaimSide) (rc : ReindexContext)
    (allocationNode commonAncestor chosenChild reindexRoot : DomainHash)
    (requiredAllocation : UInt64) : Except ReachabilityError ReindexContext := do
  let (rc, current, pathSlackAlloc) ← reclaimUp manager rounds side
    allocationNode reindexRoot requiredAllocation rounds rc chosenChild 0 0
  reclaimDown manager rounds side allocationNode commonAncestor pathSlackAlloc rounds rc current

def reclaimIntervalBefore := reclaimInterval manager rounds sideBefore

def reclaimIntervalAfter := reclaimInterval manager rounds sideAfter

def reindexIntervalsEarlierThanRoot (rc : ReindexContext)
    (allocationNode reindexRoot commonAncestor : DomainHash) (requiredAllocation : UInt64) :
    Except ReachabilityError ReindexContext := do
  let chosenChild ← rc.store.findNextAncestor reindexRoot commonAncestor
  let nodeInterval ← rc.store.interval allocationNode
  let chosenInterval ← rc.store.interval chosenChild
  if nodeInterval.start < chosenInterval.start then
    reclaimIntervalBefore manager rounds rc allocationNode commonAncestor
      chosenChild reindexRoot requiredAllocation
  else
    reclaimIntervalAfter manager rounds rc allocationNode commonAncestor
      chosenChild reindexRoot requiredAllocation

/-- `reindexIntervals`, from the given node upwards. -/
def reindexIntervals (reindexRoot : DomainHash) :
    Nat → ReindexContext → DomainHash → Except ReachabilityError ReindexContext
  | 0, _, _ => .error .unfinished
  | steps + 1, rc, current => do
    let currentInterval ← rc.store.interval current
    let rc ← countSubtrees rounds rc current
    let currentSubtreeSize := cachedSize rc.subTreeSizesCache current
    if intervalSize currentInterval ≥ currentSubtreeSize then
      propagateInterval manager rounds rc current
    else
      match ← rc.store.parent current with
      | none => .error .missingTreeParent
      | some parent =>
        if current = reindexRoot then
          .error (.reindexRootOutOfCapacity reindexRoot)
        else if ← rc.store.isStrictAncestorOf parent reindexRoot then
          reindexIntervalsEarlierThanRoot manager rounds rc current
            reindexRoot parent currentSubtreeSize
        else reindexIntervals reindexRoot steps rc parent

/-! ## Concentrating intervals towards a new reindex root -/

/-- The sizes of the given subtrees. -/
def countEach : List DomainHash → ReindexContext →
    Except ReachabilityError (ReindexContext × List UInt64)
  | [], rc => .ok (rc, [])
  | node :: nodes, rc => do
    let rc ← countSubtrees rounds rc node
    let subtreeSize := cachedSize rc.subTreeSizesCache node
    let (rc, sizes) ← countEach nodes rc
    return (rc, subtreeSize :: sizes)

/-- `countChildrenSubtrees`; an error is dropped. -/
def countChildrenSubtrees (rc : ReindexContext) (children : List DomainHash) :
    ReindexContext × List UInt64 × UInt64 :=
  match countEach rounds children rc with
  | .ok (rc, sizes) => (rc, sizes, sizes.sum)
  | .error _ => (rc, [], 0)

/-- Stage and hand out the intervals of the children, one by one. -/
def propagateEach : List DomainHash → List ReachabilityInterval →
    ReindexContext → Except ReachabilityError ReindexContext
  | [], _, rc => .ok rc
  | _ :: _, [], _ => .error .indexOutOfRange
  | child :: children, interval :: intervals, rc => do
    let rc ← stageAndPropagate manager rounds rc child interval
    propagateEach children intervals rc

def propagateChildrenIntervals (rc : ReindexContext)
    (interval : ReachabilityInterval) (children : List DomainHash)
    (sizes : List UInt64) : Except ReachabilityError ReindexContext := do
  let childIntervals ← intervalSplitExact interval sizes
  propagateEach manager rounds children childIntervals rc

def tightenIntervalsBefore (rc : ReindexContext) (reindexRoot : DomainHash)
    (siblingsBeforeChosen : List DomainHash) :
    Except ReachabilityError (ReindexContext × UInt64) := do
  let (rc, siblingSubtreeSizes, sizesSum) := countChildrenSubtrees rounds rc siblingsBeforeChosen
  let rootInterval ← rc.store.interval reindexRoot
  let intervalBeforeChosen : ReachabilityInterval := ⟨rootInterval.start + manager.reindexSlack,
      rootInterval.start + manager.reindexSlack + sizesSum - 1⟩
  let rc ← propagateChildrenIntervals manager rounds rc
    intervalBeforeChosen siblingsBeforeChosen siblingSubtreeSizes
  return (rc, sizesSum)

def tightenIntervalsAfter (rc : ReindexContext) (reindexRoot : DomainHash)
    (siblingsAfterChosen : List DomainHash) :
    Except ReachabilityError (ReindexContext × UInt64) := do
  let (rc, siblingSubtreeSizes, sizesSum) := countChildrenSubtrees rounds rc siblingsAfterChosen
  let rootInterval ← rc.store.interval reindexRoot
  let intervalAfterChosen : ReachabilityInterval :=
    ⟨rootInterval.end_ - manager.reindexSlack - sizesSum, rootInterval.end_ - manager.reindexSlack -
    1⟩
  let rc ← propagateChildrenIntervals manager rounds rc
    intervalAfterChosen siblingsAfterChosen siblingSubtreeSizes
  return (rc, sizesSum)

def expandIntervalToChosen (rc : ReindexContext) (reindexRoot chosenChild : DomainHash)
    (sizesSumBefore sizesSumAfter : UInt64) (isFinalReindexRoot : Bool) :
    Except ReachabilityError ReindexContext := do
  let rootInterval ← rc.store.interval reindexRoot
  let newChosenInterval : ReachabilityInterval := ⟨rootInterval.start + sizesSumBefore +
    manager.reindexSlack, rootInterval.end_ - sizesSumAfter - manager.reindexSlack - 1⟩
  let currentChosenInterval ← rc.store.interval chosenChild
  let rc ←
    if isFinalReindexRoot && !intervalContains newChosenInterval currentChosenInterval then
      stageAndPropagate manager rounds rc chosenChild
        ⟨newChosenInterval.start + manager.reindexSlack,
        newChosenInterval.end_ - manager.reindexSlack⟩
    else .ok rc
  let store ← rc.store.stageInterval chosenChild newChosenInterval
  return { rc with store }

def concentrateInterval (rc : ReindexContext)
    (reindexRoot chosenChild : DomainHash) (isFinalReindexRoot : Bool) :
    Except ReachabilityError ReindexContext := do
  let (siblingsBeforeChosen, siblingsAfterChosen) ← rc.store.splitChildren reindexRoot chosenChild
  let (rc, siblingsBeforeSizesSum) ← tightenIntervalsBefore manager rounds rc
    reindexRoot siblingsBeforeChosen
  let (rc, siblingsAfterSizesSum) ← tightenIntervalsAfter manager rounds rc
    reindexRoot siblingsAfterChosen
  expandIntervalToChosen manager rounds rc reindexRoot chosenChild
    siblingsBeforeSizesSum siblingsAfterSizesSum isFinalReindexRoot

end Reindexing

end Htnd.Reachability.Reindex
