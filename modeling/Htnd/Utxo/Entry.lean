import Mathlib

/-!
# Transactions, outpoints and UTXO entries

The data model of `model/externalapi` as far as the UTXO code reads it.  A
transaction carries its ID, which the source computes from the other fields
and caches.  Its version, lock time, gas, payload and mass, and the signature
script, sequence and signature-operation count of an input, are read by no
function modelled here and are left out.
-/

namespace Htnd.Utxo.Entry

/-- `externalapi.DomainHash`: exactly 32 bytes. -/
structure DomainHash where
  hashArray : List UInt8
  length_eq : hashArray.length = 32
deriving DecidableEq

/-- A hash with one given byte repeated. -/
def DomainHash.filled (byte : UInt8) : DomainHash where
  hashArray := List.replicate 32 byte
  length_eq := List.length_replicate

instance : Inhabited DomainHash := ⟨DomainHash.filled 0⟩

def virtualBlockHash : DomainHash := .filled 0xff

def virtualGenesisBlockHash : DomainHash := .filled 0xfe

abbrev DomainTransactionID := DomainHash

/-- `externalapi.DomainSubnetworkID`: exactly 20 bytes. -/
structure DomainSubnetworkID where
  bytes : List UInt8
  length_eq : bytes.length = 20
deriving DecidableEq

/-- The subnetwork ID whose first byte is given and whose others are zero. -/
def DomainSubnetworkID.ofFirstByte (byte : UInt8) : DomainSubnetworkID where
  bytes := byte :: List.replicate 19 0
  length_eq := by simp

def subnetworkIDNative : DomainSubnetworkID := .ofFirstByte 0

def subnetworkIDCoinbase : DomainSubnetworkID := .ofFirstByte 1

/-- `externalapi.ScriptPublicKey`.  A slice is shorter than `2 ^ 63`. -/
structure ScriptPublicKey where
  script : List UInt8
  version : UInt16
  length_lt : script.length < 2 ^ 63
deriving DecidableEq

structure DomainOutpoint where
  transactionID : DomainTransactionID
  index : UInt32
deriving DecidableEq

structure UTXOEntry where
  amount : UInt64
  scriptPublicKey : ScriptPublicKey
  blockDAAScore : UInt64
  isCoinbase : Bool
deriving DecidableEq

/-- The input fields the UTXO code reads; a `nil` entry is `none`. -/
structure DomainTransactionInput where
  previousOutpoint : DomainOutpoint
  utxoEntry : Option UTXOEntry
deriving DecidableEq

structure DomainTransactionOutput where
  value : UInt64
  scriptPublicKey : ScriptPublicKey
deriving DecidableEq

/-- The transaction fields the UTXO code reads. -/
structure DomainTransaction where
  inputs : List DomainTransactionInput
  outputs : List DomainTransactionOutput
  subnetworkID : DomainSubnetworkID
  id : DomainTransactionID
deriving DecidableEq

def DomainTransaction.isCoinBase (transaction : DomainTransaction) : Bool :=
  transaction.subnetworkID == subnetworkIDCoinbase

/--
Whether two entries describe the same coin: equal amount, coinbase flag and
script.  The DAA score is not compared, and no coin is the same as `nil`.
-/
def sameCoin : Option UTXOEntry → Option UTXOEntry → Bool
  | some a, some b =>
    a.amount == b.amount && a.isCoinbase == b.isCoinbase && a.scriptPublicKey == b.scriptPublicKey
  | _, _ => false

/-- Whether two entries record the same accepting DAA score. -/
def sameDAAScore : Option UTXOEntry → Option UTXOEntry → Bool
  | some a, some b => a.blockDAAScore == b.blockDAAScore
  | _, _ => false

@[simp]
theorem sameCoin_some (a b : UTXOEntry) : sameCoin (some a) (some b) = true ↔ a.amount = b.amount ∧
      a.isCoinbase = b.isCoinbase ∧ a.scriptPublicKey = b.scriptPublicKey := by
  simp [sameCoin, and_assoc]

@[simp]
theorem sameDAAScore_some (a b : UTXOEntry) : sameDAAScore (some a) (some b) = true ↔
    a.blockDAAScore = b.blockDAAScore := by
  simp [sameDAAScore]

/-- Coin identity and the DAA score together determine an entry. -/
theorem eq_of_sameCoin {a b : UTXOEntry} (same : sameCoin (some a) (some b) = true)
    (score : a.blockDAAScore = b.blockDAAScore) : a = b := by
  cases a
  simp_all

end Htnd.Utxo.Entry
