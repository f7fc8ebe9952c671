import Htnd.Lib.RangeLoops
import Htnd.Reachability.Interval

/-!
# The reachability tree and its queries

The stored reachability data and the functions that read it: intervals left
around the children of a node, the interval test for tree ancestry, the binary
searches over sets of nodes ordered by interval, and the future covering sets
that answer the remaining ancestry queries in the DAG.

The store is read through its caches and its staging area; what they show is
the store here.  Reading a field of an absent interval, which ends the program
in the source, is an error.  A walk along parent pointers is given a number of
rounds.
-/

namespace Htnd.Reachability.Tree

open Lib.RangeLoops Utxo.Entry Reachability.Interval

structure ReachabilityData where
  children : List DomainHash
  parent : Option DomainHash
  interval : Option ReachabilityInterval
  futureCoveringSet : List DomainHash

def emptyReachabilityData : ReachabilityData := ⟨[], none, none, []⟩

/-- `newReachabilityTreeData`: the interval from 1 to `math.MaxUint64 - 1`. -/
def newReachabilityTreeData : ReachabilityData :=
  { emptyReachabilityData with
    interval := some ⟨1, 0xffffffffffffffff - 1⟩ }

/-- The reachability data of all blocks, and the reindex root. -/
structure ReachabilityDataStore where
  data : FiniteMap DomainHash ReachabilityData
  reachabilityReindexRoot : Option DomainHash

namespace ReachabilityDataStore

variable (store : ReachabilityDataStore)

/-! ## Reading and staging -/

def reachabilityData (blockHash : DomainHash) : Except ReachabilityError ReachabilityData :=
  match store.data.lookup blockHash with
  | some data => .ok data
  | none => .error (.dataNotFound blockHash)

/--
`reachabilityDataForInsertion`: cloning data without an interval reads the
fields of the absent interval.
-/
def reachabilityDataForInsertion (blockHash : DomainHash) :
    Except ReachabilityError ReachabilityData :=
  match store.data.lookup blockHash with
  | some ⟨children, parent, some interval, futureCoveringSet⟩ =>
    .ok ⟨children, parent, some interval, futureCoveringSet⟩
  | some ⟨_, _, none, _⟩ => .error (.nilInterval blockHash)
  | none => .ok emptyReachabilityData

def futureCoveringSet (blockHash : DomainHash) : Except ReachabilityError (List DomainHash) := do
  let data ← store.reachabilityData blockHash
  return data.futureCoveringSet

/-- `interval`, whose fields every caller reads at once. -/
def interval (blockHash : DomainHash) : Except ReachabilityError ReachabilityInterval := do
  let data ← store.reachabilityData blockHash
  match data.interval with
  | some interval => return interval
  | none => .error (.nilInterval blockHash)

def children (blockHash : DomainHash) : Except ReachabilityError (List DomainHash) := do
  let data ← store.reachabilityData blockHash
  return data.children

def parent (blockHash : DomainHash) : Except ReachabilityError (Option DomainHash) := do
  let data ← store.reachabilityData blockHash
  return data.parent

def reindexRoot : Except ReachabilityError DomainHash :=
  match store.reachabilityReindexRoot with
  | some reindexRoot => .ok reindexRoot
  | none => .error .reindexRootNotFound

def stageData (blockHash : DomainHash) (data : ReachabilityData) :
    ReachabilityDataStore :=
  { store with data := store.data.insert blockHash data }

def stageReindexRoot (blockHash : DomainHash) : ReachabilityDataStore :=
  { store with reachabilityReindexRoot := some blockHash }

def stageAddChild (node child : DomainHash) : Except ReachabilityError ReachabilityDataStore := do
  let nodeData ← store.reachabilityDataForInsertion node
  return store.stageData node
    { nodeData with children := nodeData.children ++ [child] }

def stageParent (node parent : DomainHash) : Except ReachabilityError ReachabilityDataStore := do
  let nodeData ← store.reachabilityDataForInsertion node
  return store.stageData node { nodeData with parent := some parent }

def stageInterval (node : DomainHash) (interval : ReachabilityInterval) :
    Except ReachabilityError ReachabilityDataStore := do
  let nodeData ← store.reachabilityDataForInsertion node
  return store.stageData node { nodeData with interval := some interval }

/-! ## The interval left around the children -/

def intervalRangeForChildAllocation (node : DomainHash) :
    Except ReachabilityError ReachabilityInterval := do
  let interval ← store.interval node
  return ⟨interval.start, interval.end_ - 1⟩

def remainingIntervalBefore (node : DomainHash) :
    Except ReachabilityError ReachabilityInterval := do
  let childrenRange ← store.intervalRangeForChildAllocation node
  match ← store.children node with
  | [] => return childrenRange
  | firstChild :: _ =>
    let firstChildInterval ← store.interval firstChild
    return ⟨childrenRange.start, firstChildInterval.start - 1⟩

def remainingIntervalAfter (node : DomainHash) : Except ReachabilityError ReachabilityInterval := do
  let childrenRange ← store.intervalRangeForChildAllocation node
  match (← store.children node).getLast? with
  | none => return childrenRange
  | some lastChild =>
    let lastChildInterval ← store.interval lastChild
    return ⟨lastChildInterval.end_ + 1, childrenRange.end_⟩

def remainingSlackBefore (node : DomainHash) : Except ReachabilityError UInt64 := do
  let interval ← store.remainingIntervalBefore node
  return intervalSize interval

def remainingSlackAfter (node : DomainHash) : Except ReachabilityError UInt64 := do
  let interval ← store.remainingIntervalAfter node
  return intervalSize interval

/-! ## Tree ancestors -/

def isReachabilityTreeAncestorOf (node other : DomainHash) : Except ReachabilityError Bool := do
  let nodeInterval ← store.interval node
  let otherInterval ← store.interval other
  return intervalContains nodeInterval otherInterval

def isStrictAncestorOf (node other : DomainHash) : Except ReachabilityError Bool :=
  if node = other then .ok false
  else store.isReachabilityTreeAncestorOf node other

/-- The binary search for the last node that starts at or before an end. -/
def searchByIntervalEnd (tns : List DomainHash) (end_ : UInt64) :
    Nat → Nat → Nat → Except ReachabilityError Nat
  | 0, low, high => if low < high then .error .unfinished else .ok low
  | rounds + 1, low, high =>
    if low < high then
      let middle := (low + high) / 2
      match tns[middle]? with
      | none => .error .indexOutOfRange
      | some middleNode => do
        let middleInterval ← store.interval middleNode
        if end_ < middleInterval.start then
          searchByIntervalEnd tns end_ rounds low middle
        else
          searchByIntervalEnd tns end_ rounds (middle + 1) high
    else .ok low

/-- `findAncestorIndexOfNodeByIntervalEnd`; every round narrows the search. -/
def findAncestorIndexOfNodeByIntervalEnd (tns : List DomainHash)
    (end_ : UInt64) : Except ReachabilityError (Option Nat) := do
  match ← store.searchByIntervalEnd tns end_ tns.length 0 tns.length with
  | 0 => return none
  | index + 1 => return some index

def findAncestorIndexOfNode (tns : List DomainHash) (node : DomainHash) :
    Except ReachabilityError (Option Nat) := do
  let blockInterval ← store.interval node
  store.findAncestorIndexOfNodeByIntervalEnd tns blockInterval.end_

/-- `findAncestorOfNode`; an error finds nothing. -/
def findAncestorOfNode (tns : List DomainHash) (node : DomainHash) : Option DomainHash :=
  match store.findAncestorIndexOfNode tns node with
  | .ok (some ancestorIndex) => tns[ancestorIndex]?
  | _ => none

/-- The order by which `FindNextAncestor` sorts the children. -/
def startsBefore (first second : DomainHash) : Bool :=
  match store.interval first, store.interval second with
  | .ok firstInterval, .ok secondInterval => firstInterval.start < secondInterval.start
  | _, _ => false

def findNextAncestor (descendant ancestor : DomainHash) : Except ReachabilityError DomainHash :=
  if ancestor = descendant then .error .ancestorIsDescendant
  else do
    let childrenOfAncestor ← store.children ancestor
    let sortedChildren := childrenOfAncestor.insertionSort
      fun first second => store.startsBefore first second
    match store.findAncestorOfNode sortedChildren descendant with
    | some nextAncestor => return nextAncestor
    | none => .error .notAnAncestor

def findCommonAncestor : Nat → DomainHash → DomainHash → Except ReachabilityError DomainHash
  | 0, _, _ => .error .unfinished
  | rounds + 1, current, root => do
    if ← store.isReachabilityTreeAncestorOf current root then
      return current
    else
      match ← store.parent current with
      | some parent => findCommonAncestor rounds parent root
      | none => .error .nilHash

/-- The nodes before and after the pivot. -/
def splitAtPivot (pivot : DomainHash) : List DomainHash →
    Except ReachabilityError (List DomainHash × List DomainHash)
  | [] => .error .pivotNotAChild
  | child :: rest =>
    if child = pivot then .ok ([], rest)
    else do
      let (before, after) ← splitAtPivot pivot rest
      return (child :: before, after)

def splitChildren (node pivot : DomainHash) :
    Except ReachabilityError (List DomainHash × List DomainHash) := do
  splitAtPivot pivot (← store.children node)

/-! ## Future covering sets -/

def insertToFutureCoveringSet (node futureNode : DomainHash) :
    Except ReachabilityError ReachabilityDataStore := do
  let data := (store.data.lookup node).getD emptyReachabilityData
  let covering := data.futureCoveringSet
  let futureInterval ← store.interval futureNode
  match ← store.findAncestorIndexOfNodeByIntervalEnd covering futureInterval.end_ with
  | none =>
    return store.stageData node
      { data with futureCoveringSet := futureNode :: covering }
  | some ancestorIndex =>
    match covering[ancestorIndex]? with
    | none => .error .indexOutOfRange
    | some candidate => do
      let candidateInterval ← store.interval candidate
      if intervalContains candidateInterval futureInterval then
        return store
      else if intervalContains futureInterval candidateInterval then
        return store.stageData node
          { data with futureCoveringSet := covering.set ancestorIndex futureNode }
      else
        return store.stageData node
          { data with futureCoveringSet :=
              covering.take (ancestorIndex + 1) ++
                futureNode :: covering.drop (ancestorIndex + 1) }

def futureCoveringSetHasAncestorOf (this other : DomainHash) : Except ReachabilityError Bool := do
  let covering ← store.futureCoveringSet this
  match ← store.findAncestorIndexOfNode covering other with
  | none => return false
  | some ancestorIndex =>
    match covering[ancestorIndex]? with
    | none => .error .indexOutOfRange
    | some candidate => store.isReachabilityTreeAncestorOf candidate other

def isDAGAncestorOf (blockHashA blockHashB : DomainHash) : Except ReachabilityError Bool := do
  if ← store.isReachabilityTreeAncestorOf blockHashA blockHashB then
    return true
  else store.futureCoveringSetHasAncestorOf blockHashA blockHashB

end ReachabilityDataStore

end Htnd.Reachability.Tree
