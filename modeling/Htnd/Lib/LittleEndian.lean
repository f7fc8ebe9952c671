import Mathlib

/-!
# Little-endian byte strings and a byte reader

Fixed-width little-endian encoding of natural numbers, and the reader that
takes a given number of bytes from the front of a byte string.
-/

namespace Htnd.Lib.LittleEndian

/-- The `width` low bytes of a number, least significant byte first. -/
def encode : Nat → Nat → List UInt8
  | 0, _ => []
  | width + 1, value => UInt8.ofNat (value % 256) :: encode width (value / 256)

/-- The number a byte string denotes. -/
def decode : List UInt8 → Nat
  | [] => 0
  | byte :: rest => byte.toNat + 256 * decode rest

variable (width value : Nat)

@[simp]
theorem length_encode : (encode width value).length = width := by
  induction width generalizing value with
  | zero => rfl
  | succ width ih => rw [encode, List.length_cons, ih]

theorem decode_encode (fits : value < 256 ^ width) : decode (encode width value) = value := by
  induction width generalizing value with
  | zero =>
    have isZero : value = 0 := by simpa using fits
    rw [isZero]
    rfl
  | succ width ih =>
    have quotientFits : value / 256 < 256 ^ width := by
      rw [Nat.div_lt_iff_lt_mul (by decide)]
      rwa [Nat.pow_succ] at fits
    have lowByte : (UInt8.ofNat (value % 256)).toNat = value % 256 :=
      UInt8.toNat_ofNat_of_lt' (Nat.mod_lt value (by decide))
    rw [encode, decode, ih (value / 256) quotientFits, lowByte]
    exact Nat.mod_add_div value 256

theorem decode_lt (bytes : List UInt8) : decode bytes < 256 ^ bytes.length := by
  induction bytes with
  | nil => exact Nat.one_pos
  | cons byte rest ih =>
    have lowByte := UInt8.toNat_lt byte
    rw [decode, List.length_cons]
    omega

theorem encode_decode (bytes : List UInt8) : encode bytes.length (decode bytes) = bytes := by
  induction bytes with
  | nil => rfl
  | cons byte rest ih =>
    have lowByte := UInt8.toNat_lt byte
    have low : (byte.toNat + 256 * decode rest) % 256 = byte.toNat := by omega
    have high : (byte.toNat + 256 * decode rest) / 256 = decode rest := by omega
    rw [decode, List.length_cons, encode, low, high, ih, UInt8.ofNat_toNat]

/-- Take `count` bytes from the front, or fail if there are fewer. -/
def takeBytes (count : Nat) (bytes : List UInt8) : Option (List UInt8 × List UInt8) :=
  if count ≤ bytes.length then some (bytes.take count, bytes.drop count)
  else none

theorem takeBytes_append {front : List UInt8} {count : Nat} (exact' : front.length = count)
    (rest : List UInt8) : takeBytes count (front ++ rest) = some (front, rest) := by
  subst exact'
  simp [takeBytes]

/-- Read a fixed-width little-endian number from the front. -/
def readNumber (width : Nat) (bytes : List UInt8) : Option (Nat × List UInt8) :=
  (takeBytes width bytes).map fun taken => (decode taken.1, taken.2)

theorem readNumber_encode (fits : value < 256 ^ width) (rest : List UInt8) :
    readNumber width (encode width value ++ rest) = some (value, rest) := by
  rw [readNumber, takeBytes_append (length_encode width value),
    Option.map_some, decode_encode width value fits]

end Htnd.Lib.LittleEndian
