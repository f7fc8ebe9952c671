import Htnd.Consensus.Transactions

/-!
# Lock times of transactions

`IsFinalizedTransaction` and the sequence locks of
`transactionvalidator/transaction_in_context.go`.  A time is an `int64`, and so
is the DAA score of a sequence lock.
-/

namespace Htnd.TransactionValidator.LockTimes

open Utxo.Entry Consensus.Transactions

/-- What a lock time is compared with; a negative time is no reference. -/
def blockTimeOrBlueScore (lockTime blockDAAScore : UInt64) (blockTime : Int64) : Option UInt64 :=
  if lockTime < lockTimeThreshold then some blockDAAScore
  else if blockTime < 0 then none
  else some blockTime.toUInt64

def isFinalizedTransaction (tx : Transaction) (blockDAAScore : UInt64) (blockTime : Int64) : Bool :=
  if tx.lockTime = 0 then true
  else match blockTimeOrBlueScore tx.lockTime blockDAAScore blockTime with
    | none => false
    | some reference =>
      if tx.lockTime < reference then true
      else tx.inputs.all fun input => input.sequence == maxTxInSequenceNum

/-! ## Sequence locks -/

inductive LockFailure where
  | relativeLockTooLarge (relativeLock : UInt64)
  | inputDAAScoreTooLarge (inputDAAScore : UInt64)
  | missingTxOut (outpoints : List DomainOutpoint)
  | unfinalizedTx
deriving DecidableEq

def maxInt64 : UInt64 := 0x7fffffffffffffff

/-- The lock so far, and the outpoints without an entry. -/
structure SequenceLockState where
  blockDAAScore : Int64
  missingOutpoints : List DomainOutpoint
deriving DecidableEq

/-- One round of the loop over the inputs. -/
def lockInput (lock : SequenceLockState) (input : TransactionInput) :
    Except LockFailure SequenceLockState := do
  match input.utxoEntry with
  | none =>
    return { lock with missingOutpoints := lock.missingOutpoints ++ [input.previousOutpoint] }
  | some utxoEntry =>
    let inputDAAScore := utxoEntry.blockDAAScore
    let relativeLock := input.sequence &&& sequenceLockTimeMask
    if maxInt64 < relativeLock then
      throw (.relativeLockTooLarge relativeLock)
    if input.sequence &&& sequenceLockTimeDisabled = sequenceLockTimeDisabled then
      return lock
    if inputDAAScore = unacceptedDAAScore then return lock
    if maxInt64 < inputDAAScore then
      throw (.inputDAAScoreTooLarge inputDAAScore)
    let blockDAAScore := inputDAAScore.toInt64 + relativeLock.toInt64 - 1
    if lock.blockDAAScore < blockDAAScore then
      return { lock with blockDAAScore }
    return lock

def calcTxSequenceLockFromReferencedUTXOEntries (tx : Transaction) : Except LockFailure Int64 := do
  if tx.isCoinBase then return -1
  let lock ← tx.inputs.foldlM lockInput ⟨-1, []⟩
  if 0 < lock.missingOutpoints.length then
    throw (.missingTxOut lock.missingOutpoints)
  return lock.blockDAAScore

def sequenceLockActive (sequenceLock : Int64) (blockDAAScore : UInt64) : Bool :=
  if maxInt64 < blockDAAScore then true
  else if blockDAAScore.toInt64 ≤ sequenceLock then false
  else true

def checkTransactionSequenceLock (tx : Transaction) (povDAAScore : UInt64) :
    Except LockFailure Unit := do
  let sequenceLock ← calcTxSequenceLockFromReferencedUTXOEntries tx
  if !sequenceLockActive sequenceLock povDAAScore then throw .unfinalizedTx

end Htnd.TransactionValidator.LockTimes
