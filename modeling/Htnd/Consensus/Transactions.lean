import Htnd.Utxo.Entry

/-!
# Transactions as scripts and signatures see them

`externalapi.DomainTransaction` with every field that the signature hashes,
the script engine, the lock times and the coinbase rules read.  The fee, the
mass and the cached ID are read by none of them and are left out.
-/

namespace Htnd.Consensus.Transactions

open Utxo.Entry

/-- `externalapi.DomainTransactionInput`; a `nil` entry is `none`. -/
structure TransactionInput where
  previousOutpoint : DomainOutpoint
  signatureScript : List UInt8
  sequence : UInt64
  sigOpCount : UInt8
  utxoEntry : Option UTXOEntry
deriving DecidableEq

/-- `externalapi.DomainTransaction`.  A slice is shorter than `2 ^ 63`. -/
structure Transaction where
  version : UInt16
  inputs : List TransactionInput
  outputs : List DomainTransactionOutput
  lockTime : UInt64
  subnetworkID : DomainSubnetworkID
  gas : UInt64
  payload : List UInt8
  payload_lt : payload.length < 2 ^ 63

instance : DecidableEq Transaction := fun tx other => decidable_of_iff (tx.version = other.version ∧
  tx.inputs = other.inputs ∧ tx.outputs = other.outputs ∧ tx.lockTime = other.lockTime ∧
  tx.subnetworkID = other.subnetworkID ∧ tx.gas = other.gas ∧ tx.payload = other.payload)
  (by cases tx; cases other; simp)

def Transaction.isCoinBase (tx : Transaction) : Bool := tx.subnetworkID == subnetworkIDCoinbase

/-! ## Constants of the transaction rules -/

def lockTimeThreshold : UInt64 := 500000000000

def maxTxInSequenceNum : UInt64 := 0xffffffffffffffff

def sequenceLockTimeDisabled : UInt64 := 0x8000000000000000

def sequenceLockTimeMask : UInt64 := 0x00000000ffffffff

def unacceptedDAAScore : UInt64 := 0xffffffffffffffff

def maxScriptPublicKeyVersion : UInt16 := 0

end Htnd.Consensus.Transactions
