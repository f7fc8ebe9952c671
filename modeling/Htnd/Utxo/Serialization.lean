import Htnd.Lib.LittleEndian
import Htnd.Utxo.Entry

/-!
# Serialisation of UTXO entries

The model of `serialization.go`: the bytes that represent an outpoint and its
entry in the multiset preimage, and their decoder.  Every field the code
compares is written, the lengths are fixed or written first, so that decoding
recovers the pair and different pairs have different bytes.
-/

namespace Htnd.Utxo.Serialization

open Lib.LittleEndian Entry

def serializeOutpoint (outpoint : DomainOutpoint) : List UInt8 :=
  outpoint.transactionID.hashArray ++ encode 4 outpoint.index.toNat

/-- A boolean is one byte, `0x01` or `0x00`. -/
def serializeBool (flag : Bool) : List UInt8 := [if flag then 0x01 else 0x00]

def serializeUTXOEntry (entry : UTXOEntry) : List UInt8 :=
  encode 8 entry.blockDAAScore.toNat ++ (encode 8 entry.amount.toNat ++
    (serializeBool entry.isCoinbase ++ (encode 2 entry.scriptPublicKey.version.toNat ++
    (encode 8 entry.scriptPublicKey.script.length ++ entry.scriptPublicKey.script))))

def serializeUTXO (entry : UTXOEntry) (outpoint : DomainOutpoint) : List UInt8 :=
  serializeOutpoint outpoint ++ serializeUTXOEntry entry

/-- `ReadElement` for a boolean: any byte but `0x00` and `0x01` is malformed. -/
def deserializeBool (bytes : List UInt8) : Option (Bool × List UInt8) :=
  (takeBytes 1 bytes).bind fun taken =>
    if taken.1 = [0x00] then some (false, taken.2)
    else if taken.1 = [0x01] then some (true, taken.2)
    else none

def deserializeOutpoint (bytes : List UInt8) : Option (DomainOutpoint × List UInt8) := do
  let (transactionIDBytes, bytes) ← takeBytes 32 bytes
  let (index, bytes) ← readNumber 4 bytes
  if length_eq : transactionIDBytes.length = 32 then
    some (⟨⟨transactionIDBytes, length_eq⟩, UInt32.ofNat index⟩, bytes)
  else none

/-- How decoding ends without a value. -/
inductive DecodeFailure
  | malformed
  | panicked

/-- The error of a read that failed. -/
def orMalformed {α : Type} : Option α → Except DecodeFailure α
  | some value => .ok value
  | none => .error .malformed

/-- The length of the largest slice of bytes that `make` makes. -/
structure Allocator where
  maxAlloc : Nat
  isInt : maxAlloc < 2 ^ 63

variable (runtime : Allocator)

/--
The script of an entry.  Its length is not checked before the slice is made,
and making a slice that is too large panics.
-/
def deserializeScript (version : UInt16) (scriptPubKeyLen : Nat) (bytes : List UInt8) :
    Except DecodeFailure (ScriptPublicKey × List UInt8) :=
  if fits : scriptPubKeyLen ≤ runtime.maxAlloc then
    if scriptPubKeyLen ≤ bytes.length then
      .ok (⟨bytes.take scriptPubKeyLen, version, (List.length_take_le _ _).trans_lt
        (fits.trans_lt runtime.isInt)⟩, bytes.drop scriptPubKeyLen)
    else .error .malformed
  else .error .panicked

def deserializeUTXOEntry (bytes : List UInt8) : Except DecodeFailure (UTXOEntry × List UInt8) := do
  let (blockDAAScore, bytes) ← orMalformed (readNumber 8 bytes)
  let (amount, bytes) ← orMalformed (readNumber 8 bytes)
  let (isCoinbase, bytes) ← orMalformed (deserializeBool bytes)
  let (version, bytes) ← orMalformed (readNumber 2 bytes)
  let (scriptPubKeyLen, bytes) ← orMalformed (readNumber 8 bytes)
  let (scriptPubKey, bytes) ← deserializeScript runtime (UInt16.ofNat version) scriptPubKeyLen bytes
  return (⟨UInt64.ofNat amount, scriptPubKey, UInt64.ofNat blockDAAScore, isCoinbase⟩, bytes)

/-- `DeserializeUTXO`; trailing bytes are not looked at. -/
def deserializeUTXO (utxoBytes : List UInt8) :
    Except DecodeFailure (UTXOEntry × DomainOutpoint) := do
  let (outpoint, bytes) ← orMalformed (deserializeOutpoint utxoBytes)
  let (entry, _) ← deserializeUTXOEntry runtime bytes
  return (entry, outpoint)

/-! ## Decoding recovers the pair -/

theorem deserializeOutpoint_serialize (point : DomainOutpoint) (rest : List UInt8) :
    deserializeOutpoint (serializeOutpoint point ++ rest) = some (point, rest) := by
  rcases point with ⟨⟨hashArray, length_eq⟩, index⟩
  have fits : index.toNat < 256 ^ 4 := index.toNat_lt
  rw [deserializeOutpoint, serializeOutpoint, List.append_assoc, takeBytes_append length_eq]
  simp [readNumber_encode 4 index.toNat fits, length_eq]

theorem deserializeBool_serialize (flag : Bool) (rest : List UInt8) :
    deserializeBool (serializeBool flag ++ rest) = some (flag, rest) := by
  cases flag <;> rfl

theorem orMalformed_some_bind {α β : Type} (value : α) (next : α → Except DecodeFailure β) :
    (orMalformed (some value) >>= next) = next value :=
  rfl

section

variable {runtime} {entry : UTXOEntry}
  (fits : entry.scriptPublicKey.script.length ≤ runtime.maxAlloc)

include fits

theorem deserializeUTXOEntry_serialize (rest : List UInt8) :
    deserializeUTXOEntry runtime (serializeUTXOEntry entry ++ rest) = .ok (entry, rest) := by
  rcases entry with ⟨amount, ⟨script, version, length_lt⟩, score, coinbase⟩
  have scoreFits : score.toNat < 256 ^ 8 := score.toNat_lt
  have amountFits : amount.toNat < 256 ^ 8 := amount.toNat_lt
  have versionFits : version.toNat < 256 ^ 2 := version.toNat_lt
  have lengthFits : script.length < 256 ^ 8 := lt_trans length_lt (by decide)
  have isScript : deserializeScript runtime version script.length
      (script ++ rest) = .ok (⟨script, version, length_lt⟩, rest) := by
    rw [deserializeScript, dif_pos fits]
    simp
  simp only [deserializeUTXOEntry, serializeUTXOEntry, List.append_assoc,
    readNumber_encode 8 _ scoreFits, readNumber_encode 8 _ amountFits, deserializeBool_serialize,
    readNumber_encode 2 _ versionFits, readNumber_encode 8 _ lengthFits, orMalformed_some_bind,
    UInt64.ofNat_toNat, UInt16.ofNat_toNat, isScript]
  rfl

/-- `DeserializeUTXO` inverts `SerializeUTXO`. -/
theorem deserialize_serialize (point : DomainOutpoint) :
    deserializeUTXO runtime (serializeUTXO entry point) = .ok (entry, point) := by
  have decoded := deserializeUTXOEntry_serialize fits []
  rw [List.append_nil] at decoded
  simp only [deserializeUTXO, serializeUTXO, deserializeOutpoint_serialize,
    orMalformed_some_bind, decoded]
  rfl

end

/-- Different outpoints or entries have different bytes. -/
theorem utxo_injective {entry entry' : UTXOEntry} {point outpoint' : DomainOutpoint}
    (same : serializeUTXO entry point = serializeUTXO entry' outpoint') :
    entry = entry' ∧ point = outpoint' := by
  have fits (coin : UTXOEntry) : coin.scriptPublicKey.script.length ≤ 2 ^ 63 - 1 :=
    Nat.le_pred_of_lt coin.scriptPublicKey.length_lt
  have decoded := @deserialize_serialize ⟨2 ^ 63 - 1, by decide⟩ entry (fits entry) point
  rw [same, deserialize_serialize (fits entry')] at decoded
  have pairs := Except.ok.inj decoded
  exact ⟨(Prod.mk.inj pairs).1.symm, (Prod.mk.inj pairs).2.symm⟩

/-! ## Decoding any bytes -/

section

variable {α β : Type} {bytes : List UInt8}

theorem panicked_bind_iff (read : Option α) (next : α → Except DecodeFailure β) :
    (orMalformed read >>= next) = .error .panicked ↔ ∃ value ∈ read,
    next value = .error .panicked := by
  cases read with
  | none => simp [orMalformed, bind, Except.bind]
  | some value => simp [orMalformed_some_bind]

theorem error_bind_pure_iff (read : Except DecodeFailure α) (value : α → β)
    (fails : DecodeFailure) : (read >>= fun result => pure (value result)) = .error fails ↔
    read = .error fails := by
  cases read <;> simp [bind, Except.bind, pure, Except.pure]

theorem exists_readNumber {width : Nat} {holds : Nat × List UInt8 → Prop} :
    (∃ value ∈ readNumber width bytes, holds value) ↔ width ≤ bytes.length ∧
    holds (decode (bytes.take width), bytes.drop width) := by
  simp [readNumber, takeBytes]

variable {holds : List UInt8 → Prop}

theorem exists_deserializeBool : (∃ value ∈ deserializeBool bytes, holds value.2) ↔
    (bytes[0]? = some 0x00 ∨ bytes[0]? = some 0x01) ∧ holds (bytes.drop 1) := by
  cases bytes with
  | nil => simp [deserializeBool, takeBytes]
  | cons byte rest =>
    rw [deserializeBool, takeBytes]
    by_cases isFalse : byte = 0x00 <;> by_cases isTrue : byte = 0x01 <;> simp [isFalse, isTrue]

theorem exists_deserializeOutpoint : (∃ value ∈ deserializeOutpoint bytes, holds value.2) ↔
    36 ≤ bytes.length ∧ holds (bytes.drop 36) := by
  by_cases isID : 32 ≤ bytes.length <;> by_cases isIndex : 4 ≤ bytes.length - 32 <;>
    simp [deserializeOutpoint, takeBytes, readNumber, isID, isIndex] <;> omega

theorem deserializeScript_panicked_iff (version : UInt16) (length : Nat) :
    deserializeScript runtime version length bytes = .error .panicked ↔
    runtime.maxAlloc < length := by
  rw [deserializeScript]
  split_ifs <;> simp <;> omega

end

/-- The length of a script is read and is that of no slice. -/
def LengthTooLarge (utxoBytes : List UInt8) : Prop :=
  63 ≤ utxoBytes.length ∧ (utxoBytes[52]? = some 0x00 ∨ utxoBytes[52]? = some 0x01) ∧
    runtime.maxAlloc < decode ((utxoBytes.drop 55).take 8)

theorem deserializeUTXO_panicked_iff (utxoBytes : List UInt8) :
    deserializeUTXO runtime utxoBytes = .error .panicked ↔ LengthTooLarge runtime utxoBytes := by
  rw [deserializeUTXO, panicked_bind_iff]
  simp only [error_bind_pure_iff]
  rw [@exists_deserializeOutpoint _ fun bytes =>
    deserializeUTXOEntry runtime bytes = .error .panicked]
  simp only [deserializeUTXOEntry, panicked_bind_iff, error_bind_pure_iff,
    exists_readNumber, deserializeScript_panicked_iff]
  rw [@exists_deserializeBool _ fun bytes => 2 ≤ bytes.length ∧ 8 ≤ (bytes.drop 2).length ∧
    runtime.maxAlloc < decode ((bytes.drop 2).take 8)]
  simp only [LengthTooLarge, List.length_drop, List.drop_drop, List.getElem?_drop]
  constructor
  · rintro ⟨_, _, _, isFlag, _, _, tooLarge⟩
    exact ⟨by omega, isFlag, tooLarge⟩
  · rintro ⟨_, isFlag, tooLarge⟩
    exact ⟨by omega, by omega, by omega, isFlag, by omega, by omega, tooLarge⟩

/--
Coins with a script that can be made survive the round trip, different coins
have different bytes, and decoding any bytes fails or returns a value unless
they hold a length for which no slice can be made.
-/
theorem deserializeUTXO_returns_iff (entry entry' : UTXOEntry)
    (outpoint outpoint' : DomainOutpoint) (utxoBytes : List UInt8) :
    (entry.scriptPublicKey.script.length ≤ runtime.maxAlloc →
        deserializeUTXO runtime (serializeUTXO entry outpoint) = .ok (entry, outpoint)) ∧
      (serializeUTXO entry outpoint = serializeUTXO entry' outpoint' →
        entry = entry' ∧ outpoint = outpoint') ∧
      (deserializeUTXO runtime utxoBytes ≠ .error .panicked ↔ ¬ LengthTooLarge runtime utxoBytes) :=
  ⟨fun fits => deserialize_serialize fits outpoint, utxo_injective,
    not_congr (deserializeUTXO_panicked_iff runtime utxoBytes)⟩

/-- The length `2 ^ 63` panics even if every smaller slice can be made. -/
theorem deserializeUTXO_panics : deserializeUTXO ⟨2 ^ 63 - 1, by decide⟩
      (List.replicate 62 0x00 ++ [0x80]) = .error .panicked :=
  (deserializeUTXO_panicked_iff _ _).mpr ⟨by decide, .inl (by decide), by decide⟩

end Htnd.Utxo.Serialization
