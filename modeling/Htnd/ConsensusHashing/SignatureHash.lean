import Htnd.Consensus.Transactions
import Htnd.Lib.Calls
import Htnd.Lib.Encodings

/-!
# Signature hashes

`consensushashing/calculate_signature_hash.go`.  The hash writers are given by
what they make of the bytes written to them.  A call may fill fields of
`SighashReusedValues`, which later calls on the same transaction read; it fails
for a hash type that is not standard, and panics for an index without an input
and for an input without its UTXO entry.
-/

namespace Htnd.ConsensusHashing.SignatureHash

open Lib.Encodings Lib.LittleEndian Utxo.Entry Consensus.Transactions

/-- The domain separated hash writers of `hashes/domains.go`. -/
structure HashWriters where
  transactionSigning : List UInt8 → DomainHash
  transactionSigningECDSA : List UInt8 → DomainHash
  transactionSigningMLDSA44 : List UInt8 → DomainHash

/-- `externalapi.NewZeroHash`. -/
def zeroHash : DomainHash := .filled 0

/-! ## Hash types -/

abbrev SigHashType := UInt8

namespace SigHashType

def all : SigHashType := 0b00000001

def none : SigHashType := 0b00000010

def single : SigHashType := 0b00000100

def anyOneCanPay : SigHashType := 0b10000000

def mask : SigHashType := 0b00000111

def isStandardSigHashType (sht : SigHashType) : Bool :=
  sht == all || sht == none || sht == single || sht == all ||| anyOneCanPay ||
    sht == none ||| anyOneCanPay || sht == single ||| anyOneCanPay

def isSigHashNone (sht : SigHashType) : Bool := sht &&& mask == none

def isSigHashSingle (sht : SigHashType) : Bool := sht &&& mask == single

def isSigHashAnyOneCanPay (sht : SigHashType) : Bool := sht &&& anyOneCanPay == anyOneCanPay

end SigHashType

/-! ## The bytes that are written -/

def hashOutpoint (outpoint : DomainOutpoint) : List UInt8 :=
  outpoint.transactionID.hashArray ++ encode 4 outpoint.index.toNat

def hashTxOut (txOut : DomainTransactionOutput) : List UInt8 :=
  encode 8 txOut.value.toNat ++ (encode 2 txOut.scriptPublicKey.version.toNat ++ lengthPrefixed
    txOut.scriptPublicKey.script)

def previousOutputsBytes (tx : Transaction) : List UInt8 :=
  tx.inputs.flatMap fun txIn => hashOutpoint txIn.previousOutpoint

def sequencesBytes (tx : Transaction) : List UInt8 :=
  tx.inputs.flatMap fun txIn => encode 8 txIn.sequence.toNat

def sigOpCountsBytes (tx : Transaction) : List UInt8 :=
  tx.inputs.flatMap fun txIn => encode 1 txIn.sigOpCount.toNat

def outputsBytes (tx : Transaction) : List UInt8 := tx.outputs.flatMap hashTxOut

/-! ## Reused values -/

/-- `SighashReusedValues`; a `nil` field is `none`. -/
structure SighashReusedValues where
  previousOutputsHash : Option DomainHash := none
  sequencesHash : Option DomainHash := none
  sigOpCountsHash : Option DomainHash := none
  outputsHash : Option DomainHash := none
  payloadHash : Option DomainHash := none
deriving DecidableEq

section Writers

variable (writers : HashWriters) (tx : Transaction)

def precomputeSighashReusedValues : SighashReusedValues where
  previousOutputsHash := some (writers.transactionSigning (previousOutputsBytes tx))
  sequencesHash := some (writers.transactionSigning (sequencesBytes tx))
  sigOpCountsHash := some (writers.transactionSigning (sigOpCountsBytes tx))
  outputsHash := some (writers.transactionSigning (outputsBytes tx))
  payloadHash :=
    if tx.subnetworkID = subnetworkIDNative then some zeroHash
    else some (writers.transactionSigning (lengthPrefixed tx.payload))

/-- Read a field of the reused values, computing it first if it is `nil`. -/
def getReused (field : SighashReusedValues → Option DomainHash)
    (fill : DomainHash → SighashReusedValues → SighashReusedValues)
    (bytes : List UInt8) : StateM SighashReusedValues DomainHash := do
  match field (← get) with
  | some hash => return hash
  | none =>
    modify (fill (writers.transactionSigning bytes))
    return writers.transactionSigning bytes

def getPreviousOutputsHash (hashType : SigHashType) : StateM SighashReusedValues DomainHash :=
  if hashType.isSigHashAnyOneCanPay then return zeroHash
  else getReused writers SighashReusedValues.previousOutputsHash
    (fun hash reused => { reused with previousOutputsHash := some hash })
    (previousOutputsBytes tx)

def getSequencesHash (hashType : SigHashType) : StateM SighashReusedValues DomainHash :=
  if hashType.isSigHashSingle || hashType.isSigHashAnyOneCanPay ||
      hashType.isSigHashNone then return zeroHash
  else getReused writers SighashReusedValues.sequencesHash
    (fun hash reused => { reused with sequencesHash := some hash })
    (sequencesBytes tx)

def getSigOpCountsHash (hashType : SigHashType) : StateM SighashReusedValues DomainHash :=
  if hashType.isSigHashAnyOneCanPay then return zeroHash
  else getReused writers SighashReusedValues.sigOpCountsHash
    (fun hash reused => { reused with sigOpCountsHash := some hash })
    (sigOpCountsBytes tx)

def getOutputsHash (inputIndex : Nat) (hashType : SigHashType) :
    StateM SighashReusedValues DomainHash :=
  if hashType.isSigHashNone then return zeroHash
  else if hashType.isSigHashSingle then
    match tx.outputs[inputIndex]? with
    | none => return zeroHash
    | some txOut => return writers.transactionSigning (hashTxOut txOut)
  else getReused writers SighashReusedValues.outputsHash
    (fun hash reused => { reused with outputsHash := some hash })
    (outputsBytes tx)

def getPayloadHash : StateM SighashReusedValues DomainHash :=
  if tx.subnetworkID = subnetworkIDNative then return zeroHash
  else getReused writers SighashReusedValues.payloadHash
    (fun hash reused => { reused with payloadHash := some hash })
    (lengthPrefixed tx.payload)

/-! ## The hashes -/

/-- The hashes that stand for lists of a transaction's fields. -/
structure FieldHashes where
  previousOutputs : DomainHash
  sequences : DomainHash
  sigOpCounts : DomainHash
  outputs : DomainHash
  payload : DomainHash

/-- What is written for a signature, in the order of the writes. -/
def signatureBytes (txIn : TransactionInput) (utxoEntry : UTXOEntry)
    (hashType : SigHashType) (hashes : FieldHashes) : List UInt8 :=
  encode 2 tx.version.toNat ++
  (hashes.previousOutputs.hashArray ++
  (hashes.sequences.hashArray ++
  (hashes.sigOpCounts.hashArray ++
  (hashOutpoint txIn.previousOutpoint ++
  (encode 2 utxoEntry.scriptPublicKey.version.toNat ++
  (lengthPrefixed utxoEntry.scriptPublicKey.script ++
  (encode 8 utxoEntry.amount.toNat ++
  (encode 8 txIn.sequence.toNat ++
  (encode 1 txIn.sigOpCount.toNat ++
  (hashes.outputs.hashArray ++
  (encode 8 tx.lockTime.toNat ++
  (tx.subnetworkID.bytes ++
  (encode 8 tx.gas.toNat ++
  (hashes.payload.hashArray ++
  encode 1 hashType.toNat))))))))))))))

def calculateSignatureHash (inputIndex : Nat) (txIn : TransactionInput)
    (utxoEntry : UTXOEntry) (hashType : SigHashType) : StateM SighashReusedValues DomainHash := do
  let previousOutputs ← getPreviousOutputsHash writers tx hashType
  let sequences ← getSequencesHash writers tx hashType
  let sigOpCounts ← getSigOpCountsHash writers tx hashType
  let outputs ← getOutputsHash writers tx inputIndex hashType
  let payload ← getPayloadHash writers tx
  return writers.transactionSigning (signatureBytes tx txIn utxoEntry hashType
    ⟨previousOutputs, sequences, sigOpCounts, outputs, payload⟩)

inductive SigHashFailure where
  | notStandard
  | panicked
deriving DecidableEq

def calculateSignatureHashSchnorr (inputIndex : Nat) (hashType : SigHashType) :
    ExceptT SigHashFailure (StateM SighashReusedValues) DomainHash := do
  if !hashType.isStandardSigHashType then throw .notStandard
  match tx.inputs[inputIndex]? with
  | none => throw .panicked
  | some txIn =>
    match txIn.utxoEntry with
    | none => throw .panicked
    | some utxoEntry =>
      calculateSignatureHash writers tx inputIndex txIn utxoEntry hashType

def calculateSignatureHashECDSA (inputIndex : Nat) (hashType : SigHashType) :
    ExceptT SigHashFailure (StateM SighashReusedValues) DomainHash := do
  let hash ← calculateSignatureHashSchnorr writers tx inputIndex hashType
  return writers.transactionSigningECDSA hash.hashArray

def calculateSignatureHashMLDSA44 (inputIndex : Nat) (hashType : SigHashType) :
    ExceptT SigHashFailure (StateM SighashReusedValues) DomainHash := do
  let hash ← calculateSignatureHashSchnorr writers tx inputIndex hashType
  return writers.transactionSigningMLDSA44 hash.hashArray

end Writers

end Htnd.ConsensusHashing.SignatureHash
