import Htnd.Ghostdag.Manager

/-!
# The merge depth manager

`mergedepthmanager/merge_depth_manager.go`, with the queries of
`dagtopologymanager.go` that it makes.  The reachability tree, the stored DAA
scores and finality points, the pruning point and the ambient block version are
what the manager is built with; the roots stored so far are passed along.  What
a store does not have is `none`, and other failures of the database are left
out, as are the log messages.
-/

namespace Htnd.MergeDepth.Manager

open Lib.RangeLoops Utxo.Entry Ghostdag.Manager

inductive MergeDepthError where
  | ghostdagDataNotFound (blockHash : DomainHash)
  | finalityPointNotFound (blockHash : DomainHash)
  | mergeDepthEmpty
  | invalidBlockVersion
  | notInSelectedParentChain (lowHash highHash : DomainHash)
  | reachabilityFailed
  | nilHash
  | unfinished
deriving DecidableEq

/-- `mergeDepthManager`, with what it reads from other managers and stores. -/
structure MergeDepthManager where
  ghostdagDataStore : GHOSTDAGDataStore
  isReachabilityTreeAncestorOf : DomainHash → DomainHash → Except MergeDepthError Bool
  findNextAncestor : DomainHash → DomainHash → Except MergeDepthError DomainHash
  daaScore : DomainHash → Option UInt64
  finalityPoint : DomainHash → Option DomainHash
  pruningPoint : DomainHash
  genesisHash : DomainHash
  mergeDepth : List UInt64
  powScores : List UInt64
  ambientBlockVersion : UInt16

/-- `mergeDepthRootStore`. -/
abbrev MergeDepthRoots := FiniteMap DomainHash DomainHash

variable (mdm : MergeDepthManager)

/-- `ghostdagDataStore.Get`. -/
def getGhostdagData (blockHash : DomainHash) : Except MergeDepthError BlockGHOSTDAGData :=
  match mdm.ghostdagDataStore.lookup blockHash with
  | some data => .ok data
  | none => .error (.ghostdagDataNotFound blockHash)

/-! ## Topology -/

/--
The block whose reachability data stands for a block.  Virtual has none of its
own, so its selected parent is asked about.
-/
def reachableHash (blockHash : DomainHash) : Except MergeDepthError DomainHash := do
  if blockHash = virtualBlockHash then
    match (← getGhostdagData mdm blockHash).selectedParent with
    | some selectedParent => return selectedParent
    | none => throw .nilHash
  return blockHash

def isInSelectedParentChainOf (blockHashA blockHashB : DomainHash) :
    Except MergeDepthError Bool := do
  mdm.isReachabilityTreeAncestorOf blockHashA (← reachableHash mdm blockHashB)

def childInSelectedParentChainOf (lowHash highHash : DomainHash) :
    Except MergeDepthError DomainHash := do
  let reachable ← reachableHash mdm highHash
  if highHash = virtualBlockHash ∧ lowHash = reachable then return highHash
  if !(← isInSelectedParentChainOf mdm lowHash reachable) then
    throw (.notInSelectedParentChain lowHash highHash)
  mdm.findNextAncestor reachable lowHash

/-! ## The merge depth of a block -/

def blockVersionForDAAScore (powScores : List UInt64) (daaScore : UInt64) :
    UInt16 :=
  powScores.foldl (fun version powScore =>
    if powScore ≤ daaScore then version + 1 else version) 1

/-- The version of a block, by its DAA score or that of its selected parent. -/
def blockVersionForBlock (blockHash : DomainHash) (ghostdagData : BlockGHOSTDAGData) : UInt16 :=
  match (mdm.daaScore blockHash).or (ghostdagData.selectedParent.bind mdm.daaScore) with
  | some daaScore => blockVersionForDAAScore mdm.powScores daaScore
  | none => mdm.ambientBlockVersion

def mergeDepthForBlock (blockHash : DomainHash)
    (ghostdagData : BlockGHOSTDAGData) : Except MergeDepthError UInt64 :=
  match mdm.mergeDepth.getLast? with
  | none => .error .mergeDepthEmpty
  | some last =>
    let blockVersion := blockVersionForBlock mdm blockHash ghostdagData
    if blockVersion = 0 then .error .invalidBlockVersion
    else .ok ((mdm.mergeDepth[blockVersion.toNat - 1]?).getD last)

/-! ## Merge depth roots -/

/-- The loop of `calculateMergeDepthRoot`. -/
def walkToRoot (blockHash : DomainHash) (requiredBlueScore : UInt64) :
    Nat → DomainHash → Except MergeDepthError DomainHash
  | 0, _ => .error .unfinished
  | rounds + 1, current => do
    let next ← childInSelectedParentChainOf mdm current blockHash
    let nextGHOSTDAGData ← getGhostdagData mdm next
    if requiredBlueScore ≤ nextGHOSTDAGData.blueScore then return current
    walkToRoot blockHash requiredBlueScore rounds next

/-- The stored root of the selected parent, or else its finality point. -/
def storedRoot (roots : MergeDepthRoots) (selectedParent : DomainHash) :
    Except MergeDepthError DomainHash :=
  match (roots.lookup selectedParent).or (mdm.finalityPoint selectedParent) with
  | some root => .ok root
  | none => .error (.finalityPointNotFound selectedParent)

/-- The search for a root, from the stored root of the selected parent. -/
def searchRoot (roots : MergeDepthRoots) (rounds : Nat)
    (blockHash selectedParent : DomainHash) (requiredBlueScore : UInt64) :
    Except MergeDepthError DomainHash := do
  let stored ← storedRoot mdm roots selectedParent
  let current :=
    if stored = virtualGenesisBlockHash then mdm.pruningPoint else stored
  let currentGHOSTDAGData ← getGhostdagData mdm current
  let current :=
    if requiredBlueScore ≤ currentGHOSTDAGData.blueScore then mdm.pruningPoint
    else current
  walkToRoot mdm blockHash requiredBlueScore rounds current

def calculateMergeDepthRoot (roots : MergeDepthRoots) (rounds : Nat)
    (blockHash : DomainHash) (isBlockWithTrustedData : Bool) :
    Except MergeDepthError DomainHash := do
  if isBlockWithTrustedData then return virtualGenesisBlockHash
  let ghostdagData ← getGhostdagData mdm blockHash
  let mergeDepth ← mergeDepthForBlock mdm blockHash ghostdagData
  if ghostdagData.blueScore < mergeDepth then return mdm.genesisHash
  let pruningPointGhostdagData ← getGhostdagData mdm mdm.pruningPoint
  if ghostdagData.blueScore < pruningPointGhostdagData.blueScore + mergeDepth then
    return virtualGenesisBlockHash
  if !(← isInSelectedParentChainOf mdm mdm.pruningPoint blockHash) then
    return virtualGenesisBlockHash
  match ghostdagData.selectedParent with
  | none => throw .nilHash
  | some selectedParent =>
    if selectedParent = mdm.genesisHash then return mdm.genesisHash
    searchRoot mdm roots rounds blockHash selectedParent (ghostdagData.blueScore - mergeDepth)

/-- `MergeDepthRoot`: the root, and the roots stored then. -/
def mergeDepthRoot (roots : MergeDepthRoots) (rounds : Nat)
    (blockHash : DomainHash) (isBlockWithTrustedData : Bool) :
    Except MergeDepthError (DomainHash × MergeDepthRoots) := do
  if blockHash = virtualBlockHash then
    return (← calculateMergeDepthRoot mdm roots rounds blockHash false, roots)
  match roots.lookup blockHash with
  | some root => return (root, roots)
  | none =>
    let root ← calculateMergeDepthRoot mdm roots rounds blockHash isBlockWithTrustedData
    return (root, roots.insert blockHash root)

end Htnd.MergeDepth.Manager
