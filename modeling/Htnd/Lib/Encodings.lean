import Htnd.Lib.LittleEndian

/-!
# Self-delimiting encodings

An encoding is self-delimiting if what is encoded at the front of a byte string
is known whatever follows it.  Encodings of a fixed width that lose nothing are
self-delimiting, and so is a byte string after its length.  A list of items that
are encoded one after the other is known from the whole string.
-/

namespace Htnd.Lib.Encodings

open LittleEndian List

universe u v

variable {α : Type u} {β : Type v}

def SelfDelimiting (write : α → List β) : Prop :=
  ∀ first second rest rest', write first ++ rest = write second ++ rest' →
    first = second ∧ rest = rest'

variable {write : α → List β}

theorem SelfDelimiting.injective (delimited : SelfDelimiting write) : Function.Injective write := by
  intro first second same
  have extended : write first ++ [] = write second ++ [] := by rw [same]
  exact (delimited first second [] [] extended).1

theorem of_length (injective : Function.Injective write) {width : Nat}
    (lengths : ∀ item, (write item).length = width) : SelfDelimiting write := by
  intro first second _ _ same
  have parts := append_inj same ((lengths first).trans (lengths second).symm)
  exact ⟨injective parts.1, parts.2⟩

theorem of_encode {toNat : α → Nat} (injective : Function.Injective toNat)
    {width : Nat} (fits : ∀ item, toNat item < 256 ^ width) :
    SelfDelimiting fun item => encode width (toNat item) := by
  refine of_length ?_ fun item => length_encode width (toNat item)
  intro first second same
  have decoded := congrArg decode same
  rw [decode_encode width _ (fits first), decode_encode width _ (fits second)] at decoded
  exact injective decoded

/-- Items that are not empty, one after the other. -/
theorem SelfDelimiting.flatMap_injective (delimited : SelfDelimiting write)
    (written : ∀ item, write item ≠ []) :
    Function.Injective fun items : List α => items.flatMap write := by
  intro items
  induction items with
  | nil =>
    intro others same
    cases others with
    | nil => rfl
    | cons other others => exact absurd (append_eq_nil_iff.mp same.symm).1 (written other)
  | cons item items ih =>
    intro others same
    cases others with
    | nil => exact absurd (append_eq_nil_iff.mp same).1 (written item)
    | cons other others =>
      rcases delimited _ _ _ _ same with ⟨sameItem, sameRest⟩
      rw [sameItem, ih sameRest]

/-! ## Byte strings after their length -/

/-- The length in eight bytes, then the bytes. -/
def lengthPrefixed (bytes : List UInt8) : List UInt8 := encode 8 bytes.length ++ bytes

theorem lengthPrefixed_append_inj {first second rest rest' : List UInt8}
    (fits : first.length < 256 ^ 8) (fits' : second.length < 256 ^ 8)
    (same : lengthPrefixed first ++ rest = lengthPrefixed second ++ rest') :
    first = second ∧ rest = rest' := by
  simp only [lengthPrefixed, append_assoc] at same
  have lengths := append_inj same ((length_encode 8 _).trans (length_encode 8 _).symm)
  have lengthEq := congrArg decode lengths.1
  rw [decode_encode 8 _ fits, decode_encode 8 _ fits'] at lengthEq
  exact append_inj lengths.2 lengthEq

end Htnd.Lib.Encodings
