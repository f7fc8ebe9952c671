import Htnd.Utxo.UtxoSet

/-!
# Stored diffs, diff children and restored pasts

The model of the UTXO-diff part of the consensus state manager.  Every block
whose status is resolved stores a diff and at most one diff child.  The diff
leads to the block's past UTXO set from the past of its diff child, or from
virtual's UTXO set if it has none.  `restorePastUTXO` follows the diff
children and composes the diffs; `ReverseUTXODiffs` re-points the blocks of a
resolved chain, one commit at a time; and two functions keep the selected tip
at the end of all these routes when virtual moves.

The store is read through its caches, its staging area and the mask of pruned
blocks; what they show is the store here.  A walk that follows diff children
is given a number of rounds, since a cycle would keep it going.
-/

namespace Htnd.ConsensusState.UtxoDiffs

open Lib.RangeLoops Utxo.Entry Utxo.MutableDiff Utxo.DiffAlgebra Utxo.UtxoSet

/-! ## The store -/

/-- `utxoDiffStore`: the stored diffs and diff children. -/
structure UTXODiffStore where
  diffs : FiniteMap DomainHash UTXODiff
  children : FiniteMap DomainHash DomainHash

namespace UTXODiffStore

/-- `UTXODiff`: the marker of virtual genesis reads as an empty diff. -/
def utxoDiff (store : UTXODiffStore) (blockHash : DomainHash) : Option UTXODiff :=
  (store.diffs.lookup blockHash).or
    (if blockHash = virtualGenesisBlockHash then some .empty else none)

/-- `UTXODiffChild`; a missing child is no child. -/
def utxoDiffChild (store : UTXODiffStore) (blockHash : DomainHash) : Option DomainHash :=
  store.children.lookup blockHash

def hasUTXODiffChild (store : UTXODiffStore) (blockHash : DomainHash) : Bool :=
  (store.utxoDiffChild blockHash).isSome

/-- `Stage` and the commit of its shard. -/
def stage (store : UTXODiffStore) (blockHash : DomainHash)
    (diff : UTXODiff) (child : Option DomainHash) : UTXODiffStore where
  diffs := store.diffs.insert blockHash diff
  children :=
    match child with
    | some child => store.children.insert blockHash child
    | none => store.children.erase blockHash

/-- The block has a diff in the store. -/
def Stored (store : UTXODiffStore) (blockHash : DomainHash) : Prop :=
  (store.diffs.lookup blockHash).isSome = true

theorem lookup_stage (store : UTXODiffStore) (blockHash : DomainHash)
    (diff : UTXODiff) (child : Option DomainHash) (other : DomainHash) :
    (store.stage blockHash diff child).diffs.lookup other =
      if other = blockHash then some diff else store.diffs.lookup other :=
  insert_ite store.diffs blockHash other diff

theorem child_stage (store : UTXODiffStore)
    (blockHash : DomainHash) (diff : UTXODiff) (child : Option DomainHash) (other : DomainHash) :
    (store.stage blockHash diff child).utxoDiffChild other =
      if other = blockHash then child else store.utxoDiffChild other := by
  cases child with
  | some child => exact insert_ite store.children blockHash other child
  | none => exact erase_ite store.children blockHash other

end UTXODiffStore

/-- The errors of the functions below. -/
inductive ManagerError where
  | diffNotFound (blockHash : DomainHash)
  | ghostdagDataNotFound (blockHash : DomainHash)
  | noSelectedParent (blockHash : DomainHash)
  | childChainLoops (selectedTip root : DomainHash)
  | rootWithoutDiff (root selectedTip : DomainHash)
  | selectedTipHasChild (selectedTip : DomainHash)
  | diffFailed (err : DiffError)
deriving DecidableEq

/-! ## Restoring a past -/

/-- The walk of `restorePastUTXO` along the diff children. -/
def collectDiffs (store : UTXODiffStore) : Nat → DomainHash → Option (List UTXODiff)
  | 0, _ => none
  | rounds + 1, blockHash =>
    match store.utxoDiff blockHash with
    | none => some []
    | some diff =>
      match store.utxoDiffChild blockHash with
      | none => some [diff]
      | some child => (collectDiffs store rounds child).map (diff :: ·)

/-- The accumulation of the collected diffs, the last one first. -/
def accumulateDiffs (diffs : List UTXODiff) : Except ManagerError UTXODiff :=
  match withDiffsInPlace .newMutableUTXODiff diffs.reverse with
  | (accumulated, none) => .ok accumulated.toUTXODiff
  | (_, some err) => .error (.diffFailed err)

/-- `restorePastUTXO`, if the walk ends within the given rounds. -/
def restorePastUTXO (genesisHash : DomainHash) (store : UTXODiffStore)
    (rounds : Nat) (blockHash : DomainHash) : Option (Except ManagerError UTXODiff) :=
  if blockHash = virtualBlockHash then some (.ok .empty)
  else
    (collectDiffs store rounds (if blockHash = virtualGenesisBlockHash then genesisHash
        else blockHash)).map accumulateDiffs

/-! ## Reversing the diffs of a resolved chain -/

structure UTXODiffReversalData where
  selectedParentHash : DomainHash
  selectedParentUTXODiff : UTXODiff

/--
The GHOSTDAG data of a block, if it is stored: its selected parent, which the
data of the first block does not have.
-/
abbrev GhostdagData := DomainHash → Option (Option DomainHash)

/-- The variables of the loop of `ReverseUTXODiffs`, and the store. -/
structure Reversal where
  store : UTXODiffStore
  previousBlock : DomainHash
  previousUTXODiff : UTXODiff

/-- How a run of `ReverseUTXODiffs` ended. -/
inductive ReversalOutcome where
  | finished
  | interrupted
  | failed (err : ManagerError)
deriving DecidableEq

/--
One round of the loop: the state after its commit, and whether the loop stops
there.
-/
def reverseRound (ghostdagData : GhostdagData) (state : Reversal) :
    Except ManagerError (Reversal × Bool) :=
  match ghostdagData state.previousBlock with
  | none => .error (.ghostdagDataNotFound state.previousBlock)
  | some none => .error (.noSelectedParent state.previousBlock)
  | some (some currentBlock) =>
    match ghostdagData currentBlock with
    | none => .error (.ghostdagDataNotFound currentBlock)
    | some currentSelectedParent =>
      match state.store.utxoDiff currentBlock with
      | none => .error (.diffNotFound currentBlock)
      | some currentUTXODiff =>
        let child := state.store.utxoDiffChild currentBlock
        .ok (⟨state.store.stage currentBlock state.previousUTXODiff.reversed state.previousBlock,
            currentBlock, currentUTXODiff⟩, child = none || currentSelectedParent ≠ child)

/-- The loop, interrupted once it has made the given number of commits. -/
def reverseLoop (ghostdagData : GhostdagData) : Nat → Reversal → UTXODiffStore × ReversalOutcome
  | 0, state => (state.store, .interrupted)
  | commits + 1, state =>
    match reverseRound ghostdagData state with
    | .error err => (state.store, .failed err)
    | .ok (state, true) => (state.store, .finished)
    | .ok (state, false) => reverseLoop ghostdagData commits state

/--
`ReverseUTXODiffs`, interrupted once it has made the given number of commits,
as by its hook or by a crash.
-/
def reverseUTXODiffs (ghostdagData : GhostdagData) (store : UTXODiffStore) (tipHash : DomainHash)
    (reversalData : UTXODiffReversalData) : Nat → UTXODiffStore × ReversalOutcome
  | 0 => (store, .interrupted)
  | commits + 1 =>
    let previousBlock := reversalData.selectedParentHash
    match store.utxoDiff previousBlock with
    | none => (store, .failed (.diffNotFound previousBlock))
    | some previousUTXODiff =>
      reverseLoop ghostdagData commits ⟨store.stage previousBlock
        reversalData.selectedParentUTXODiff tipHash, previousBlock, previousUTXODiff⟩

/-! ## The selected tip and virtual -/

/-- Go on with the result of a walk that ended without an error. -/
def afterWalk {α β : Type} (next : α → Option (Except ManagerError β)) :
    Option (Except ManagerError α) → Option (Except ManagerError β)
  | none => none
  | some (.error err) => some (.error err)
  | some (.ok result) => next result

/-- `DiffFrom` between restored pasts. -/
def diffFromPast (this other : UTXODiff) : Except ManagerError UTXODiff :=
  match diffFrom this other with
  | .error err => .error (.diffFailed err)
  | .ok diff => .ok diff

/-- The walk to the end of the diff children, with the visited blocks. -/
def findDiffRoot (store : UTXODiffStore) (selectedTip : DomainHash) :
    Nat → List DomainHash → DomainHash → Option (Except ManagerError DomainHash)
  | 0, _, _ => none
  | rounds + 1, visited, root =>
    if root ∈ visited then
      some (.error (.childChainLoops selectedTip root))
    else
      match store.utxoDiffChild root with
      | none => some (.ok root)
      | some child => findDiffRoot store selectedTip rounds (root :: visited) child

/-- The two diffs `stageSelectedTipDiffRelativeToVirtual` stages. -/
def stageTipAndRoot (store : UTXODiffStore) (selectedTip root : DomainHash)
    (selectedTipPastUTXO rootPastUTXO : UTXODiff) : Except ManagerError UTXODiffStore :=
  match diffFromPast selectedTipPastUTXO rootPastUTXO with
  | .error err => .error err
  | .ok rootUTXODiff =>
    .ok ((store.stage root rootUTXODiff (some selectedTip)).stage
      selectedTip selectedTipPastUTXO none)

def stageSelectedTipDiffRelativeToVirtual (genesisHash : DomainHash) (store : UTXODiffStore)
    (rounds : Nat) (selectedTip : DomainHash) : Option (Except ManagerError UTXODiffStore) :=
  match store.utxoDiffChild selectedTip with
  | none => some (.ok store)
  | some first =>
    afterWalk (fun root =>
        match store.utxoDiff root with
        | none => some (.error (.rootWithoutDiff root selectedTip))
        | some _ =>
          afterWalk (fun selectedTipPastUTXO => afterWalk
            (fun rootPastUTXO => some (stageTipAndRoot store selectedTip root selectedTipPastUTXO
            rootPastUTXO)) (restorePastUTXO genesisHash store rounds root))
            (restorePastUTXO genesisHash store rounds selectedTip))
      (findDiffRoot store selectedTip rounds [selectedTip] first)

def updateSelectedTipUTXODiff (store : UTXODiffStore)
    (selectedTip : DomainHash) (virtualUTXODiff : UTXODiff) : Except ManagerError UTXODiffStore :=
  if store.hasUTXODiffChild selectedTip then
    .error (.selectedTipHasChild selectedTip)
  else
    match store.utxoDiff selectedTip with
    | none => .error (.diffNotFound selectedTip)
    | some selectedTipUTXODiff =>
      match diffFromPast virtualUTXODiff selectedTipUTXODiff with
      | .error err => .error err
      | .ok newDiff => .ok (store.stage selectedTip newDiff none)

end Htnd.ConsensusState.UtxoDiffs
