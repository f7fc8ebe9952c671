import Htnd.Reachability.Reindex

/-!
# The reachability manager

`Init` stages the virtual genesis with the whole interval, `AddBlock` adds a
block under its selected parent and registers it in the future covering sets
of its merge set, and `UpdateReindexRoot` moves the reindex root towards the
selected tip.

The GHOSTDAG data is the store the manager was built with: while a pruning
proof is applied, blocks are added with a store of their own, and the store of
level 0 may have no data for them later.
-/

namespace Htnd.Reachability.Manager

open Utxo.Entry Reachability.Interval Reachability.Tree Reindex

/-- The fields of `externalapi.BlockGHOSTDAGData` the manager reads. -/
structure BlockGHOSTDAGData where
  blueScore : UInt64
  selectedParent : Option DomainHash
  mergeSetBlues : List DomainHash
  mergeSetReds : List DomainHash

/-- The GHOSTDAG data of a block, if it is stored. -/
abbrev GHOSTDAGDataStore := DomainHash → Option BlockGHOSTDAGData

/-- `New`, with the default window and slack. -/
def newReachabilityManager (roundedShares : RoundedShares) : ReachabilityManager where
  reindexSlack := (1 : UInt64) <<< 12
  reindexWindow := 200
  roundedShares := roundedShares

def init (store : ReachabilityDataStore) : ReachabilityDataStore :=
  if (store.data.lookup virtualGenesisBlockHash).isSome then store
  else
    (store.stageData virtualGenesisBlockHash
      newReachabilityTreeData).stageReindexRoot virtualGenesisBlockHash

section Manager

variable (manager : ReachabilityManager) (rounds : Nat)

def addChild (store : ReachabilityDataStore) (node child reindexRoot : DomainHash) :
    Except ReachabilityError ReachabilityDataStore := do
  let remaining ← store.remainingIntervalAfter node
  let store ← store.stageAddChild node child
  let store ← store.stageParent child node
  if intervalSize remaining = 0 then
    let store ← store.stageInterval child remaining
    let rc ← reindexIntervals manager rounds reindexRoot rounds (newReindexContext store) child
    return rc.store
  else
    let (allocated, _) ← intervalSplitInHalf remaining
    store.stageInterval child allocated

/-- Insert the block into the future covering sets of the given blocks. -/
def insertToFutureCoveringSets (blockHash : DomainHash) : List DomainHash → ReachabilityDataStore →
    Except ReachabilityError ReachabilityDataStore
  | [], store => .ok store
  | current :: rest, store => do
    let store ← store.insertToFutureCoveringSet current blockHash
    insertToFutureCoveringSets blockHash rest store

def addBlock (ghostdagDataStore : GHOSTDAGDataStore)
    (store : ReachabilityDataStore) (blockHash : DomainHash) :
    Except ReachabilityError ReachabilityDataStore := do
  let store := store.stageData blockHash newReachabilityTreeData
  match ghostdagDataStore blockHash with
  | none => .error (.ghostdagDataNotFound blockHash)
  | some ghostdagData =>
    let reindexRoot ← store.reindexRoot
    match ghostdagData.selectedParent with
    | none => .error .nilHash
    | some selectedParent =>
      let store ← addChild manager rounds store selectedParent blockHash reindexRoot
      let store ← insertToFutureCoveringSets blockHash ghostdagData.mergeSetBlues store
      insertToFutureCoveringSets blockHash ghostdagData.mergeSetReds store

/-! ## Moving the reindex root -/

/-- The descent of `findNextReindexRoot` towards the selected tip. -/
def descendToWindow (ghostdagDataStore : GHOSTDAGDataStore)
    (store : ReachabilityDataStore) (selectedTip : DomainHash) (tipBlueScore : UInt64) :
    Nat → DomainHash → Except ReachabilityError DomainHash
  | 0, _ => .error .unfinished
  | steps + 1, newReindexRoot => do
    let chosenChild ← store.findNextAncestor selectedTip newReindexRoot
    match ghostdagDataStore chosenChild with
    | none =>
      if chosenChild = selectedTip then return newReindexRoot
      else
        descendToWindow ghostdagDataStore store selectedTip tipBlueScore steps chosenChild
    | some chosenChildData =>
      if tipBlueScore < chosenChildData.blueScore then
        .error (.blueScoreAboveTip chosenChild selectedTip)
      else if tipBlueScore - chosenChildData.blueScore < manager.reindexWindow then
        return newReindexRoot
      else
        descendToWindow ghostdagDataStore store selectedTip tipBlueScore steps chosenChild

/-- `findNextReindexRoot`: the ancestor to start from and the new root. -/
def findNextReindexRoot (ghostdagDataStore : GHOSTDAGDataStore) (store : ReachabilityDataStore)
    (currentReindexRoot selectedTip : DomainHash) :
    Except ReachabilityError (DomainHash × DomainHash) := do
  match ghostdagDataStore selectedTip with
  | none => .error (.ghostdagDataNotFound selectedTip)
  | some selectedTipData =>
    if ← store.isReachabilityTreeAncestorOf currentReindexRoot selectedTip then
      let newReindexRoot ← descendToWindow manager ghostdagDataStore store
        selectedTip selectedTipData.blueScore rounds currentReindexRoot
      return (currentReindexRoot, newReindexRoot)
    else
      match ghostdagDataStore currentReindexRoot with
      | none => .error (.ghostdagDataNotFound currentReindexRoot)
      | some currentRootData =>
        if selectedTipData.blueScore < currentRootData.blueScore ||
            selectedTipData.blueScore - currentRootData.blueScore < manager.reindexSlack then
          return (currentReindexRoot, currentReindexRoot)
        else
          let commonAncestor ← store.findCommonAncestor rounds selectedTip currentReindexRoot
          let newReindexRoot ← descendToWindow manager ghostdagDataStore
            store selectedTip selectedTipData.blueScore rounds commonAncestor
          return (commonAncestor, newReindexRoot)

/-- The loop of `updateReindexRoot` from the ancestor to the new root. -/
def concentrateTowards (selectedTip newReindexRoot : DomainHash) :
    Nat → ReindexContext → DomainHash → Except ReachabilityError ReindexContext
  | 0, _, _ => .error .unfinished
  | steps + 1, rc, reindexRootAncestor => do
    let chosenChild ← rc.store.findNextAncestor selectedTip reindexRootAncestor
    let rc ← concentrateInterval manager rounds rc reindexRootAncestor
      chosenChild (chosenChild = newReindexRoot)
    if chosenChild = newReindexRoot then return rc
    else concentrateTowards selectedTip newReindexRoot steps rc chosenChild

def updateReindexRoot (ghostdagDataStore : GHOSTDAGDataStore)
    (store : ReachabilityDataStore) (selectedTip : DomainHash) :
    Except ReachabilityError ReachabilityDataStore := do
  let currentReindexRoot ← store.reindexRoot
  if currentReindexRoot = selectedTip then return store
  else
    match ghostdagDataStore currentReindexRoot with
    | none => return store.stageReindexRoot selectedTip
    | some _ =>
      let (reindexRootAncestor, newReindexRoot) ← findNextReindexRoot
        manager rounds ghostdagDataStore store currentReindexRoot selectedTip
      if currentReindexRoot = newReindexRoot then return store
      else if newReindexRoot = reindexRootAncestor then
        return store.stageReindexRoot newReindexRoot
      else
        let rc ← concentrateTowards manager rounds selectedTip
          newReindexRoot rounds (newReindexContext store) reindexRootAncestor
        return rc.store.stageReindexRoot newReindexRoot

end Manager

end Htnd.Reachability.Manager
