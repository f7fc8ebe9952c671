import Htnd.Lib.LittleEndian

/-!
# Fields of the protocol-buffer wire format

Base-128 varints and the three kinds of field a message is written with: an
unsigned number and a byte string, both left out when they have their default
value, and an embedded message.  A tag below 128 is one byte.  Every reader
takes its field from the front of a byte string and returns the rest; a field
that is left out is recognised because the next tag, if any, is another one.
-/

namespace Htnd.Lib.ProtoWire

open LittleEndian List

/-! ## Varints -/

/-- A number in base 128, at most `width` bytes, the last one below 128. -/
def varint : Nat → Nat → List UInt8
  | 0, _ => []
  | width + 1, value =>
    if value < 128 then [UInt8.ofNat value]
    else UInt8.ofNat (value % 128 + 128) :: varint width (value / 128)

/-- Read a varint of at most `width` bytes. -/
def readVarint : Nat → List UInt8 → Option (Nat × List UInt8)
  | 0, _ => none
  | _ + 1, [] => none
  | width + 1, byte :: rest =>
    if byte.toNat < 128 then some (byte.toNat, rest)
    else (readVarint width rest).map fun read => (byte.toNat - 128 + 128 * read.1, read.2)

theorem readVarint_varint (width value : Nat) (fits : value < 128 ^ width) (pos : 0 < width)
    (rest : List UInt8) : readVarint width (varint width value ++ rest) = some (value, rest) := by
  induction width generalizing value with
  | zero => exact absurd pos (lt_irrefl 0)
  | succ width ih =>
    rw [varint]
    split_ifs with small
    · have byteIs : (UInt8.ofNat value).toNat = value :=
        UInt8.toNat_ofNat_of_lt' (by show value < 256; omega)
      rw [singleton_append, readVarint, byteIs, if_pos small]
    have byteIs : (UInt8.ofNat (value % 128 + 128)).toNat = value % 128 + 128 :=
      UInt8.toNat_ofNat_of_lt' (by show value % 128 + 128 < 256; omega)
    have quotientFits : value / 128 < 128 ^ width := by
      rw [Nat.div_lt_iff_lt_mul (by decide)]
      rwa [Nat.pow_succ] at fits
    have morePositive : 0 < width := by
      by_contra isZero
      have isZero : width = 0 := by omega
      subst isZero
      omega
    rw [cons_append, readVarint, byteIs, if_neg (by omega),
      ih (value / 128) quotientFits morePositive, Option.map_some]
    have sum : value % 128 + 128 - 128 + 128 * (value / 128) = value := by omega
    rw [sum]

/-! ## Fields -/

/-- Numbers are written in at most ten bytes. -/
def encodeVarint (value : Nat) : List UInt8 := varint 10 value

theorem readVarint_encodeVarint {value : Nat} (fits : value < 2 ^ 64) (rest : List UInt8) :
    readVarint 10 (encodeVarint value ++ rest) = some (value, rest) :=
  readVarint_varint 10 value (by omega) (by decide) rest

/-- A number field, left out when it is zero. -/
def numberField (tag : UInt8) (value : Nat) : List UInt8 :=
  if value = 0 then [] else tag :: encodeVarint value

def messageField (tag : UInt8) (message : List UInt8) : List UInt8 :=
  tag :: (encodeVarint message.length ++ message)

/-- A byte-string field, left out when it is empty. -/
def bytesField (tag : UInt8) (bytes : List UInt8) : List UInt8 :=
  if bytes = [] then [] else messageField tag bytes

theorem length_varint_le (width value : Nat) : (varint width value).length ≤ width := by
  induction width generalizing value with
  | zero => exact le_refl 0
  | succ width ih =>
    rw [varint]
    split_ifs
    · exact Nat.succ_le_succ (Nat.zero_le width)
    · exact Nat.succ_le_succ (ih (value / 128))

theorem length_numberField_le (tag : UInt8) (value : Nat) :
    (numberField tag value).length ≤ 11 := by
  rw [numberField]
  split_ifs
  · exact Nat.zero_le 11
  · exact Nat.succ_le_succ (length_varint_le 10 value)

theorem length_bytesField_le (tag : UInt8) (bytes : List UInt8) :
    (bytesField tag bytes).length ≤ 11 + bytes.length := by
  rw [bytesField]
  split_ifs
  · exact Nat.zero_le _
  · have bound := length_varint_le 10 bytes.length
    rw [messageField, length_cons, length_append, encodeVarint]
    omega

/-- The field with this tag does not stand at the front. -/
def StartsOther (tag : UInt8) (bytes : List UInt8) : Prop := ∀ first ∈ bytes.head?, first ≠ tag

/-- Read a number field that may be left out. -/
def readNumberField (tag : UInt8) : List UInt8 → Option (Nat × List UInt8)
  | [] => some (0, [])
  | first :: rest =>
    if first = tag then readVarint 10 rest else some (0, first :: rest)

def readMessageField (tag : UInt8) : List UInt8 → Option (List UInt8 × List UInt8)
  | [] => none
  | first :: rest =>
    if first = tag then
      (readVarint 10 rest).bind fun read => takeBytes read.1 read.2
    else none

/-- Read a byte-string field that may be left out. -/
def readBytesField (tag : UInt8) (bytes : List UInt8) : Option (List UInt8 × List UInt8) :=
  if bytes.head? = some tag then readMessageField tag bytes
  else some ([], bytes)

variable {rest : List UInt8}

variable (tag : UInt8)

theorem read_numberField {value : Nat} (fits : value < 2 ^ 64) (other : StartsOther tag rest) :
    readNumberField tag (numberField tag value ++ rest) = some (value, rest) := by
  rw [numberField]
  split_ifs with isZero
  · rw [isZero, nil_append]
    cases rest with
    | nil => rfl
    | cons first rest => rw [readNumberField, if_neg (other first rfl)]
  · rw [cons_append, readNumberField, if_pos rfl, readVarint_encodeVarint fits]

theorem read_messageField {message : List UInt8}
    (fits : message.length < 2 ^ 64) (rest : List UInt8) :
    readMessageField tag (messageField tag message ++ rest) = some (message, rest) := by
  rw [messageField, cons_append, append_assoc, readMessageField,
    if_pos rfl, readVarint_encodeVarint fits, Option.bind_some, takeBytes_append rfl]

theorem read_bytesField {bytes : List UInt8}
    (fits : bytes.length < 2 ^ 64) (other : StartsOther tag rest) :
    readBytesField tag (bytesField tag bytes ++ rest) = some (bytes, rest) := by
  rw [bytesField, readBytesField]
  split_ifs with empty isTag isTag
  · exact absurd rfl (other tag isTag)
  · rw [empty, nil_append]
  · exact read_messageField tag fits rest
  · exact absurd rfl isTag

theorem startsOther_numberField {tag other : UInt8} (ne : other ≠ tag) (value : Nat)
    (restOther : StartsOther tag rest) : StartsOther tag (numberField other value ++ rest) := by
  rw [numberField]
  split_ifs
  · exact restOther
  · rintro _ ⟨⟩
    exact ne

theorem startsOther_nil : StartsOther tag [] := by
  rintro _ ⟨⟩

end Htnd.Lib.ProtoWire
