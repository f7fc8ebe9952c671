import Htnd.Lib.ProtoWire
import Htnd.Utxo.Entry

/-!
# Keys and values of the virtual UTXO set in the database

The database keeps virtual's UTXO set in one bucket.  A key is the bucket's
path followed by the serialised outpoint, and a value is the serialised entry,
both as protocol buffers.  A bulk lookup bounds its cursor to the keys it asks
for; the bounds are byte strings computed by carrying.
-/

namespace Htnd.ConsensusState.UtxoKeys

open Lib.ProtoWire Utxo.Entry List Option

/-! ## Serialisation -/

/-- `serializeOutpoint`: `DbOutpoint.MarshalVT`. -/
def serializeOutpoint (outpoint : DomainOutpoint) : List UInt8 :=
  messageField 0x0a (bytesField 0x0a outpoint.transactionID.hashArray) ++
    numberField 0x10 outpoint.index.toNat

/-- `DbScriptPublicKey.MarshalVT`. -/
def serializeScriptPublicKey (scriptPublicKey : ScriptPublicKey) : List UInt8 :=
  bytesField 0x0a scriptPublicKey.script ++ numberField 0x10 scriptPublicKey.version.toNat

/-- `serializeUTXOEntry`: `DbUtxoEntry.MarshalVT`. -/
def serializeUTXOEntry (entry : UTXOEntry) : List UInt8 :=
  numberField 0x08 entry.amount.toNat ++ (messageField 0x12
    (serializeScriptPublicKey entry.scriptPublicKey) ++
    (numberField 0x18 entry.blockDAAScore.toNat ++ numberField 0x20 entry.isCoinbase.toNat))

/-- `maxOutpointSuffix`: the size of the key encoder's buffer. -/
def maxOutpointSuffix : Nat := 48

theorem length_bytesField (hash : DomainHash) : (bytesField 0x0a hash.hashArray).length = 34 := by
  have nonNil : hash.hashArray ≠ [] := by
    intro empty
    have length := hash.length_eq
    rw [empty] at length
    cases length
  rw [bytesField, if_neg nonNil, messageField, length_cons, length_append, hash.length_eq]
  rfl

/-- Every outpoint fits the encoder's buffer. -/
theorem length_serializeOutpoint_le (point : DomainOutpoint) :
    (serializeOutpoint point).length ≤ maxOutpointSuffix := by
  have index := length_numberField_le 0x10 point.index.toNat
  have hash := length_bytesField point.transactionID
  have lengthByte : (encodeVarint 34).length = 1 := rfl
  rw [serializeOutpoint, length_append, messageField, hash,
    length_cons, length_append, lengthByte, maxOutpointSuffix]
  omega

theorem outpoint_injective {first second : DomainOutpoint}
    (same : serializeOutpoint first = serializeOutpoint second) : first = second := by
  have readBack : ∀ point : DomainOutpoint, readMessageField 0x0a (serializeOutpoint point) =
        some (bytesField 0x0a point.transactionID.hashArray, numberField 0x10 point.index.toNat) :=
    fun point => read_messageField 0x0a (by rw [length_bytesField]; decide) _
  have readHash : ∀ hash : DomainHash, readBytesField 0x0a (bytesField 0x0a hash.hashArray) =
      some (hash.hashArray, []) := by
    intro hash
    have read := read_bytesField 0x0a (by rw [hash.length_eq]; decide) (startsOther_nil 0x0a)
    rwa [append_nil] at read
  have readIndex : ∀ index : UInt32, readNumberField 0x10 (numberField 0x10 index.toNat) =
      some (index.toNat, []) := by
    intro index
    have read := read_numberField 0x10 (lt_trans index.toNat_lt (by decide)) (startsOther_nil 0x10)
    rwa [append_nil] at read
  have parts := (readBack first).symm.trans ((congrArg _ same).trans (readBack second))
  rw [some.injEq, Prod.mk.injEq] at parts
  have hashes := (readHash first.transactionID).symm.trans
    ((congrArg _ parts.1).trans (readHash second.transactionID))
  have indices := (readIndex first.index).symm.trans
    ((congrArg _ parts.2).trans (readIndex second.index))
  rw [some.injEq, Prod.mk.injEq] at hashes indices
  rcases first with ⟨⟨_, _⟩, _⟩
  cases hashes.1
  cases UInt32.toNat_inj.mp indices.1
  rfl

/-! ## Decoding -/

/--
`deserializeUTXOEntry`.  The generated decoder accepts fields in any order; of
its behaviour only this is used, that it inverts the encoder.
-/
structure EntryDecoder where
  decode : List UInt8 → Option UTXOEntry
  decode_serialize : ∀ entry, decode (serializeUTXOEntry entry) = some entry

/-- Read a script public key whose fields stand in the encoder's order. -/
def readScriptPublicKey (bytes : List UInt8) : Option ScriptPublicKey :=
  (readBytesField 0x0a bytes).bind fun script => (readNumberField 0x10 script.2).bind fun version =>
      if fits : script.1.length < 2 ^ 63 then
        some ⟨script.1, UInt16.ofNat version.1, fits⟩
      else none

/-- Read an entry whose fields stand in the encoder's order. -/
def readUTXOEntry (bytes : List UInt8) : Option UTXOEntry :=
  (readNumberField 0x08 bytes).bind fun amount => (readMessageField 0x12 amount.2).bind
    fun script => (readScriptPublicKey script.1).bind fun scriptPublicKey =>
    (readNumberField 0x18 script.2).bind fun score => (readNumberField 0x20 score.2).map
    fun coinbase => ⟨UInt64.ofNat amount.1, scriptPublicKey, UInt64.ofNat score.1, coinbase.1 == 1⟩

theorem readScriptPublicKey_serialize (script : ScriptPublicKey) :
    readScriptPublicKey (serializeScriptPublicKey script) = some script := by
  rcases script with ⟨_, version, length_lt⟩
  have versionFits : version.toNat < 2 ^ 64 := lt_trans version.toNat_lt (by decide)
  have readScript := read_bytesField 0x0a (lt_trans length_lt (by decide))
    (startsOther_numberField (by decide : (0x10 : UInt8) ≠ 0x0a) version.toNat
    (startsOther_nil 0x0a))
  have readVersion := read_numberField 0x10 versionFits (startsOther_nil 0x10)
  rw [append_nil] at readScript readVersion
  rw [readScriptPublicKey, serializeScriptPublicKey, readScript,
    bind_some, readVersion, bind_some, dif_pos length_lt, UInt16.ofNat_toNat]

theorem readUTXOEntry_serialize (entry : UTXOEntry) :
    readUTXOEntry (serializeUTXOEntry entry) = some entry := by
  rcases entry with ⟨amount, scriptPublicKey, score, coinbase⟩
  have scriptFits : (serializeScriptPublicKey scriptPublicKey).length < 2 ^ 64 := by
    have script := length_bytesField_le 0x0a scriptPublicKey.script
    have version := length_numberField_le 0x10 scriptPublicKey.version.toNat
    have bound := scriptPublicKey.length_lt
    rw [serializeScriptPublicKey, length_append]
    omega
  have otherThanScore : StartsOther 0x18 (numberField 0x20 coinbase.toNat) := by
    have starts := startsOther_numberField (by decide : (0x20 : UInt8) ≠ 0x18) coinbase.toNat
      (startsOther_nil 0x18)
    rwa [append_nil] at starts
  rw [readUTXOEntry, serializeUTXOEntry, read_numberField 0x08 amount.toNat_lt
    (by rintro _ ⟨⟩; decide), bind_some, read_messageField 0x12 scriptFits, bind_some,
    readScriptPublicKey_serialize, bind_some, read_numberField 0x18 score.toNat_lt otherThanScore,
    bind_some, UInt64.ofNat_toNat, UInt64.ofNat_toNat]
  cases coinbase <;> rfl

/-- The decoder that reads the fields in the encoder's order. -/
def canonicalDecoder : EntryDecoder := ⟨readUTXOEntry, readUTXOEntry_serialize⟩

/-! ## Bounds of a cursor -/

/-- Bytes are compared as numbers and byte strings lexicographically. -/
scoped instance linearOrderByte : LinearOrder UInt8 where
  le_refl := UInt8.le_refl
  le_trans _ _ _ := UInt8.le_trans
  le_antisymm _ _ := UInt8.le_antisymm
  le_total := UInt8.le_total
  lt_iff_le_not_ge _ _ := by
    rw [UInt8.lt_iff_toNat_lt, UInt8.le_iff_toNat_le, UInt8.le_iff_toNat_le]
    omega
  toDecidableLE := inferInstance
  toDecidableLT := inferInstance
  toDecidableEq := inferInstance

/--
`prefixLimit`: the least byte string above everything that starts with the
given bytes, or none if they are all `0xff`.
-/
def prefixLimit : List UInt8 → Option (List UInt8)
  | [] => none
  | byte :: rest =>
    match prefixLimit rest with
    | some limit => some (byte :: limit)
    | none => if byte < 0xff then some [byte + 1] else none

/--
`keySuccessor`: the key with its last byte incremented, carrying to the left,
or none if every byte wraps.
-/
def keySuccessor : List UInt8 → Option (List UInt8)
  | [] => none
  | byte :: rest =>
    match keySuccessor rest with
    | some successor => some (byte :: successor)
    | none =>
      if byte + 1 ≠ 0 then some ((byte + 1) :: rest.map fun _ => 0)
      else none

theorem not_append_lt (path suffix : List UInt8) : ¬ path ++ suffix < path := by
  induction path with
  | nil => exact not_lt_nil _
  | cons byte rest ih =>
    rw [cons_append, cons_lt_cons_iff]
    rintro (less | ⟨-, less⟩)
    · exact lt_irrefl byte less
    · exact ih less

theorem lt_add_one_of_ne {byte : UInt8} (notLast : byte ≠ 0xff) : byte < byte + 1 := by
  have bound := UInt8.toNat_lt byte
  have notLastNat : byte.toNat ≠ 255 := fun last => notLast (UInt8.toNat_inj.mp last)
  show byte.toNat < (byte.toNat + 1) % 2 ^ 8
  omega

theorem append_lt_prefixLimit {path limit : List UInt8}
    (isLimit : prefixLimit path = some limit) (suffix : List UInt8) : path ++ suffix < limit := by
  induction path generalizing limit with
  | nil => cases isLimit
  | cons byte rest ih =>
    rw [prefixLimit] at isLimit
    cases restLimit : prefixLimit rest with
    | some other =>
      rw [restLimit] at isLimit
      cases isLimit
      rw [cons_append, cons_lt_cons_iff]
      exact .inr ⟨rfl, ih restLimit⟩
    | none =>
      rw [restLimit] at isLimit
      split_ifs at isLimit with notLast
      cases isLimit
      rw [cons_append, cons_lt_cons_iff]
      exact .inl (lt_add_one_of_ne (ne_of_lt notLast))

theorem lt_keySuccessor {key successor : List UInt8}
    (follows : keySuccessor key = some successor) : key < successor := by
  induction key generalizing successor with
  | nil => cases follows
  | cons byte rest ih =>
    rw [keySuccessor] at follows
    cases restSuccessor : keySuccessor rest with
    | some other =>
      rw [restSuccessor] at follows
      cases follows
      rw [cons_lt_cons_iff]
      exact .inr ⟨rfl, ih restSuccessor⟩
    | none =>
      rw [restSuccessor] at follows
      split_ifs at follows with noWrap
      cases follows
      rw [cons_lt_cons_iff]
      refine .inl (lt_add_one_of_ne ?_)
      rintro rfl
      exact noWrap rfl

end Htnd.ConsensusState.UtxoKeys
