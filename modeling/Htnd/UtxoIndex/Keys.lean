import Htnd.Lib.OrderedStore
import Htnd.ConsensusState.UtxoKeys

/-!
# Buckets, keys and cursors of the UTXO index

The index keeps a coin under the path of a bucket named after the coin's script,
followed by the serialised outpoint.  The script stands in the path as it is:
a separator is put after it unless it already ends in one.  A cursor lists
what lies in the range of keys that begin with a bucket's path.
-/

namespace Htnd.UtxoIndex.Keys

open Lib.RangeLoops Lib.OrderedStore Lib.LittleEndian Lib.ProtoWire Utxo.Entry
open ConsensusState.UtxoKeys List

/-- The key-value store: an ordered map of byte strings. -/
abbrev Database := FiniteMap (List UInt8) (List UInt8)

/-- The bytes of a string constant of the source. -/
def bytesOf (text : String) : List UInt8 := text.toList.map fun char => UInt8.ofNat char.toNat

/-! ## Buckets -/

/-- `bucketSeparator`: a slash. -/
def bucketSeparator : UInt8 := 0x2f

structure Bucket where
  path : List UInt8
deriving DecidableEq

def makeBucket (path : List UInt8) : Bucket :=
  if path ≠ [] ∧ path.getLast? ≠ some bucketSeparator then
    ⟨path ++ [bucketSeparator]⟩
  else ⟨path⟩

def Bucket.bucket (bucket : Bucket) (bucketBytes : List UInt8) : Bucket :=
  makeBucket (bucket.path ++ bucketBytes)

/-- `Key.Bytes` of a key of the bucket. -/
def Bucket.key (bucket : Bucket) (suffix : List UInt8) : List UInt8 := bucket.path ++ suffix

theorem Bucket.prefix_key (bucket : Bucket) (suffix : List UInt8) :
    bucket.path <+: bucket.key suffix :=
  prefix_append _ _

def utxoIndexBucket : Bucket := makeBucket (bytesOf "utxo-index")

def utxoIndexCountsBucket : Bucket := makeBucket (bytesOf "utxo-index-counts")

def virtualParentsKey : List UInt8 := (makeBucket []).key (bytesOf "utxo-index-virtual-parents")

def circulatingSupplyKey : List UInt8 :=
  (makeBucket []).key (bytesOf "utxo-index-circulating-supply")

def utxoCountsInitializedKey : List UInt8 :=
  (makeBucket []).key (bytesOf "utxo-index-counts-initialized")

def needsResetKey : List UInt8 := (makeBucket []).key (bytesOf "utxo-index-needs-reset")

/-! ## Scripts as keys -/

/-- `scriptPublicKeyBytes`; its two branches write the same bytes. -/
def scriptPublicKeyBytes (scriptPublicKey : ScriptPublicKey) : List UInt8 :=
  encode 2 scriptPublicKey.version.toNat ++ scriptPublicKey.script

def bucketForScriptPublicKey (scriptPublicKey : ScriptPublicKey) : Bucket :=
  utxoIndexBucket.bucket (scriptPublicKeyBytes scriptPublicKey)

def utxoCountKeyForScriptPublicKey (scriptPublicKey : ScriptPublicKey) : List UInt8 :=
  utxoIndexCountsBucket.key (scriptPublicKeyBytes scriptPublicKey)

def convertOutpointToKey (bucket : Bucket) (outpoint : DomainOutpoint) : List UInt8 :=
  bucket.key (serializeOutpoint outpoint)

/--
`ScriptPublicKeyString`: the version and the script of a script public key in
one string, by which the staged changes are grouped.
-/
structure ScriptPublicKeyString where
  bytes : List UInt8
  length_ge : 2 ≤ bytes.length
  length_lt : bytes.length < 2 ^ 63 + 2
deriving DecidableEq

/-- `ScriptPublicKey.String`. -/
def stringOf (scriptPublicKey : ScriptPublicKey) : ScriptPublicKeyString where
  bytes := encode 2 scriptPublicKey.version.toNat ++ scriptPublicKey.script
  length_ge := by
    rw [length_append, length_encode]
    exact Nat.le_add_right 2 _
  length_lt := by
    have bound := scriptPublicKey.length_lt
    rw [length_append, length_encode]
    omega

def newScriptPublicKeyFromString (text : ScriptPublicKeyString) : ScriptPublicKey where
  script := text.bytes.drop 2
  version := UInt16.ofNat (decode (text.bytes.take 2))
  length_lt := by
    have bound := text.length_lt
    have lower := text.length_ge
    rw [length_drop]
    omega

variable (scriptPublicKey : ScriptPublicKey) (point : DomainOutpoint)

@[simp]
theorem fromString_stringOf : newScriptPublicKeyFromString (stringOf scriptPublicKey) =
      scriptPublicKey := by
  rcases scriptPublicKey with ⟨script, version, _⟩
  have isFront : (encode 2 version.toNat ++ script).take 2 = encode 2 version.toNat := by
    rw [take_left' (length_encode 2 version.toNat)]
  have isBack : (encode 2 version.toNat ++ script).drop 2 = script := by
    rw [drop_left' (length_encode 2 version.toNat)]
  simp only [newScriptPublicKeyFromString, stringOf, isFront, isBack,
    decode_encode 2 version.toNat version.toNat_lt, UInt16.ofNat_toNat]

@[simp]
theorem stringOf_fromString (text : ScriptPublicKeyString) :
    stringOf (newScriptPublicKeyFromString text) = text := by
  rcases text with ⟨bytes, length_ge, _⟩
  have isTwo : (bytes.take 2).length = 2 := by rw [length_take, Nat.min_eq_left length_ge]
  have fits : decode (bytes.take 2) < 2 ^ 16 := by
    have bound := decode_lt (bytes.take 2)
    rwa [isTwo] at bound
  have front : encode 2 (decode (bytes.take 2)) = bytes.take 2 := by
    have written := encode_decode (bytes.take 2)
    rwa [isTwo] at written
  rw [ScriptPublicKeyString.mk.injEq]
  change encode 2 (UInt16.ofNat (decode (bytes.take 2))).toNat ++ bytes.drop 2 = bytes
  rw [UInt16.toNat_ofNat_of_lt' fits, front, take_append_drop]

variable {first second : ScriptPublicKey}

theorem stringOf_injective (same : stringOf first = stringOf second) : first = second := by
  have readBack := congrArg newScriptPublicKeyFromString same
  rwa [fromString_stringOf, fromString_stringOf] at readBack

/-- The count keys of different scripts differ. -/
theorem utxoCountKey_injective (same : utxoCountKeyForScriptPublicKey first =
    utxoCountKeyForScriptPublicKey second) : first = second := by
  apply stringOf_injective
  rw [ScriptPublicKeyString.mk.injEq]
  exact append_cancel_left same

/-- A script's bucket lies under the bucket of the index. -/
theorem bucket_prefix_for : utxoIndexBucket.path <+:
      (bucketForScriptPublicKey scriptPublicKey).path := by
  rw [bucketForScriptPublicKey, Bucket.bucket, makeBucket]
  split_ifs
  · exact ⟨_, (append_assoc _ _ _).symm⟩
  · exact prefix_append _ _

/-- Every coin is kept under the bucket of the index. -/
theorem bucket_prefix_key : utxoIndexBucket.path <+:
      convertOutpointToKey (bucketForScriptPublicKey scriptPublicKey) point :=
  (bucket_prefix_for scriptPublicKey).trans (Bucket.prefix_key _ _)

/-! ## Keys outside the bucket of the index -/

/-- The key belongs to the accounts of the index and not to its coins. -/
def Outside (key : List UInt8) : Prop := ¬ utxoIndexBucket.path <+: key

theorem outside_virtualParentsKey : Outside virtualParentsKey := by
  rw [Outside]
  decide

theorem outside_supplyKey : Outside circulatingSupplyKey := by
  rw [Outside]
  decide

theorem outside_initKey : Outside utxoCountsInitializedKey := by
  rw [Outside]
  decide

theorem outside_needsResetKey : Outside needsResetKey := by
  rw [Outside]
  decide

variable {key : List UInt8}

theorem outside_of_counts (isCount : utxoIndexCountsBucket.path <+: key) : Outside key := by
  rcases isCount with ⟨rest, rfl⟩
  exact fun isFront => absurd (prefix_of_prefix_length_le isFront
    (prefix_append _ rest) (by decide)) (by decide)

theorem countsBucket_prefix_key : utxoIndexCountsBucket.path <+:
      utxoCountKeyForScriptPublicKey scriptPublicKey :=
  utxoIndexCountsBucket.prefix_key _

theorem outside_utxoCountKey : Outside (utxoCountKeyForScriptPublicKey scriptPublicKey) :=
  outside_of_counts (countsBucket_prefix_key scriptPublicKey)

/-- A key that is no extension of the counts' bucket is no count key. -/
theorem ne_utxoCountKey (differs : ¬ utxoIndexCountsBucket.path <+: key)
    (scriptPublicKey : ScriptPublicKey) : key ≠ utxoCountKeyForScriptPublicKey scriptPublicKey := by
  rintro rfl
  exact differs (countsBucket_prefix_key scriptPublicKey)

/-! ## Cursors -/

/-- `bytes.TrimPrefix`. -/
def trimFront (front bytes : List UInt8) : List UInt8 :=
  if front <+: bytes then bytes.drop front.length else bytes

/-- The range `BytesPrefix` gives a cursor. -/
def bytesPrefix (path : List UInt8) : KeyRange (List UInt8) := ⟨path, prefixLimit path⟩

/--
`Database.Cursor`, from its first position to its last: the suffixes of the
keys, and the values.
-/
def cursor (database : Database) (bucket : Bucket) : List (List UInt8 × List UInt8) :=
  (scan database (bytesPrefix bucket.path)).map fun item => (trimFront bucket.path item.1, item.2)

/-- A key between a path and its limit begins with the path. -/
theorem prefix_of_bounds {path : List UInt8} (lower : path ≤ key)
    (upper : ∀ limit ∈ prefixLimit path, key < limit) : path <+: key := by
  induction path generalizing key with
  | nil => exact nil_prefix
  | cons byte rest ih =>
    cases key with
    | nil => exact absurd (nil_lt_cons byte rest) (not_lt.mpr lower)
    | cons first tail =>
      rw [prefixLimit] at upper
      rcases lt_or_ge byte first with below | notBelow
      · exfalso
        cases restLimit : prefixLimit rest with
        | some limit =>
          rw [restLimit] at upper
          have less := upper (byte :: limit) rfl
          rw [cons_lt_cons_iff] at less
          rcases less with less | ⟨same, -⟩
          · exact lt_asymm below less
          · exact ne_of_gt below same
        | none =>
          rw [restLimit] at upper
          have room : byte < 0xff := lt_of_lt_of_le below
            (UInt8.le_iff_toNat_le.mpr (Nat.le_of_lt_succ (UInt8.toNat_lt first)))
          have less := upper [byte + 1] (by rw [if_pos room]; rfl)
          rw [cons_lt_cons_iff] at less
          rcases less with less | ⟨-, less⟩
          · rw [UInt8.lt_iff_toNat_lt] at less below room
            change first.toNat < (byte.toNat + 1) % 2 ^ 8 at less
            omega
          · exact not_lt_nil _ less
      · have isByte : byte = first := by
          rcases lt_or_eq_of_le notBelow with above | same
          · exact absurd (cons_lt_cons_iff.mpr (.inl above)) (not_lt.mpr lower)
          · exact same.symm
        subst isByte
        rw [prefix_cons_inj]
        apply ih
        · rw [← not_lt] at lower ⊢
          exact fun less => lower (cons_lt_cons_iff.mpr (.inr ⟨rfl, less⟩))
        · intro limit isLimit
          rw [isLimit] at upper
          have less := upper (byte :: limit) rfl
          rw [cons_lt_cons_iff] at less
          rcases less with less | ⟨-, less⟩
          · exact absurd less (lt_irrefl byte)
          · exact less

/-- A bucket's cursor covers the keys that begin with its path. -/
theorem covers_bytesPrefix (path key : List UInt8) :
    (bytesPrefix path).Covers key ↔ path <+: key := by
  constructor
  · rintro ⟨lower, upper⟩
    exact prefix_of_bounds lower upper
  · rintro ⟨suffix, rfl⟩
    refine ⟨not_lt.mp (not_append_lt path suffix), ?_⟩
    intro _ isLimit
    exact append_lt_prefixLimit isLimit suffix

@[simp]
theorem trimFront_append (front rest : List UInt8) : trimFront front (front ++ rest) = rest := by
  rw [trimFront, if_pos (prefix_append front rest), drop_left]

theorem mem_cursor {db : Database} {bucket : Bucket} {suffix value : List UInt8} :
    (suffix, value) ∈ cursor db bucket ↔ db.lookup (bucket.key suffix) = some value := by
  rw [cursor, mem_map]
  constructor
  · rintro ⟨⟨key, _⟩, listed, same⟩
    rw [mem_scan, covers_bytesPrefix, mem_entries] at listed
    rcases listed with ⟨found, _, rfl⟩
    rw [trimFront_append] at same
    rcases same with ⟨rfl, rfl⟩
    exact found
  · intro found
    refine ⟨⟨bucket.key suffix, value⟩, ?_, ?_⟩
    · rw [mem_scan, covers_bytesPrefix, mem_entries]
      exact ⟨found, prefix_append _ _⟩
    · rw [Bucket.key, trimFront_append]

theorem nodup_cursor (db : Database) (bucket : Bucket) : (cursor db bucket).Nodup := by
  have nodup := scan_nodup db (bytesPrefix bucket.path)
  refine nodup.map_on ?_
  rintro ⟨_, _⟩ firstListed ⟨_, _⟩ secondListed same
  rw [mem_scan, covers_bytesPrefix] at firstListed secondListed
  rcases firstListed.2 with ⟨_, rfl⟩
  rcases secondListed.2 with ⟨_, rfl⟩
  rw [trimFront_append, trimFront_append] at same
  rcases same with ⟨rfl, rfl⟩
  rfl

/-! ## Decoding -/

/--
`deserializeUTXOEntry`, `deserializeUTXOAmount` and `deserializeOutpoint`.  Of
the generated decoders only this is used, that they invert the encoders.
-/
structure Decoders extends EntryDecoder where
  amount : List UInt8 → Option UInt64
  amount_serialize : ∀ entry, amount (serializeUTXOEntry entry) = some entry.amount
  outpoint : List UInt8 → Option DomainOutpoint
  outpoint_serialize : ∀ asked, outpoint (serializeOutpoint asked) = some asked

/-- Read an outpoint whose fields stand in the encoder's order. -/
def readOutpoint (bytes : List UInt8) : Option DomainOutpoint :=
  (readMessageField 0x0a bytes).bind fun message => (readBytesField 0x0a message.1).bind fun hash =>
    (readNumberField 0x10 message.2).bind fun index =>
        if length_eq : hash.1.length = 32 then
          some ⟨⟨hash.1, length_eq⟩, UInt32.ofNat index.1⟩
        else none

theorem readOutpoint_serialize : readOutpoint (serializeOutpoint point) = some point := by
  rcases point with ⟨⟨hashArray, length_eq⟩, index⟩
  have hashFits : (bytesField 0x0a hashArray).length < 2 ^ 64 := by
    rw [length_bytesField ⟨hashArray, length_eq⟩]
    decide
  have readHash := read_bytesField 0x0a (by rw [length_eq]; decide : hashArray.length < 2 ^ 64)
    (startsOther_nil 0x0a)
  have readIndex := read_numberField 0x10
    (lt_trans index.toNat_lt (by decide)) (startsOther_nil 0x10)
  rw [append_nil] at readHash readIndex
  rw [readOutpoint, serializeOutpoint, read_messageField 0x0a hashFits, Option.bind_some, readHash,
    Option.bind_some, readIndex, Option.bind_some, dif_pos length_eq, UInt32.ofNat_toNat]

/-- The decoders that read the fields in the encoders' order. -/
def canonicalDecoders : Decoders where
  toEntryDecoder := canonicalDecoder
  amount bytes := (readUTXOEntry bytes).map UTXOEntry.amount
  amount_serialize entry := by
    rw [readUTXOEntry_serialize, Option.map_some]
  outpoint := readOutpoint
  outpoint_serialize := readOutpoint_serialize

end Htnd.UtxoIndex.Keys
