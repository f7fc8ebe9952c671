import Htnd.Txscript.Bounds

/-!
# What the parser returns

An opcode takes at least one byte, so the parser takes no more rounds than there
are bytes, and it reads no byte past the script.  The counter of opcodes takes
the same steps, and unparsing leads back to the script but for ten opcodes.
-/

namespace Htnd.Txscript.Parsing

open Lib.Fallible Lib.LittleEndian Script List

/-- What holds of each of the 256 bytes. -/
theorem forall_byte {holds : UInt8 → Prop}
    (all : ∀ n < 256, holds (UInt8.ofNat n)) (instr : UInt8) : holds instr := by
  rw [← UInt8.ofNat_toNat (x := instr)]
  exact all instr.toNat instr.toNat_lt

theorem slice_ok {α : Type} {items : List α} {low high : Nat} (ordered : low ≤ high)
    (inRange : high ≤ items.length) : slice items low high = .ok ((items.take high).drop low) := by
  rw [slice, if_pos ⟨ordered, inRange⟩]

/-! ## Counting and unparsing -/

/--
One round of `countScriptOpcodes`: what follows the opcode, or nothing after a
malformed push.  A push of a specific length may pass the end of the script.
-/
def skipOpcode (script : List UInt8) (length : Int) : Except Failure (Option (List UInt8)) :=
  if length = 1 then .ok (some (script.drop 1))
  else if 1 < length then .ok (some (script.drop length.toNat))
  else do
    let width := (-length).toNat
    let rest := script.drop 1
    if rest.length < width then return none
    if length ≠ -1 ∧ length ≠ -2 ∧ length ≠ -4 then return none
    let dataLen := decode (← slice rest 0 width)
    let rest := rest.drop width
    if rest.length < dataLen then return none
    return some (rest.drop dataLen)

def countOpcodes : Nat → List UInt8 → Except Failure Nat
  | _, [] => .ok 0
  | 0, _ :: _ => .error .unfinished
  | rounds + 1, instr :: rest => do
    match ← skipOpcode (instr :: rest) (opcodeArray instr).length with
    | some script => return 1 + (← countOpcodes rounds script)
    | none => return 1

def countScriptOpcodes (script : List UInt8) : Except Failure Nat :=
  countOpcodes script.length script

/--
The bytes of an opcode; there are none if the data has another length.  The
table's negative lengths are those of the counts of one, two and four bytes.
-/
def opcodeBytes (value : UInt8) (length : Int) (data : List UInt8) : Option (List UInt8) :=
  if length = 1 then if data.length ≠ 0 then none else some [value]
  else
    let lengthBytes :=
      if length < 0 then encode (-length).toNat data.length else []
    let retbytes := value :: lengthBytes ++ data
    let nbytes :=
      if length < 0 then decode lengthBytes + (1 + lengthBytes.length)
      else length.toNat
    if retbytes.length ≠ nbytes then none else some retbytes

def bytes (pop : ParsedOpcode) : Option (List UInt8) :=
  opcodeBytes pop.value pop.opcode.length pop.data

def unparseScript : List ParsedOpcode → Option (List UInt8)
  | [] => some []
  | pop :: pops => do
    let b ← bytes pop
    return b ++ (← unparseScript pops)

variable {script : List UInt8}

/-- The parser, the counter and the unparser agree on one opcode. -/
theorem parseOpcode_cases (instr : UInt8) (rest : List UInt8) (length : Int) :
    (parseOpcode (instr :: rest) length = .error (.scriptError .malformedPush) ∧
    (skipOpcode (instr :: rest) length = .ok none ∨ skipOpcode (instr :: rest) length =
    .ok (some []))) ∨ ∃ tail data after, parseOpcode (instr :: rest) length = .ok (data, after) ∧
    rest = tail ++ after ∧ skipOpcode (instr :: rest) length = .ok (some after) ∧ ∀ value,
    opcodeBytes value length data = some (value :: tail) := by
  rw [parseOpcode, skipOpcode]
  by_cases isSingle : length = 1
  · rw [if_pos isSingle, if_pos isSingle]
    refine .inr ⟨[], [], rest, rfl, rfl, rfl, fun value => ?_⟩
    rw [opcodeBytes, if_pos isSingle]
    rfl
  rw [if_neg isSingle, if_neg isSingle]
  by_cases isFixed : 1 < length
  · rw [if_pos isFixed, if_pos isFixed]
    obtain ⟨size, rfl⟩ : ∃ size : Nat, length = size + 1 := ⟨(length - 1).toNat, by omega⟩
    have isSize : ((size : Int) + 1).toNat = size + 1 := by omega
    rw [isSize, drop_succ_cons]
    by_cases isCut : (instr :: rest).length < size + 1
    · rw [if_pos isCut]
      rw [length_cons] at isCut
      exact .inl ⟨rfl, .inr (by rw [drop_eq_nil_of_le (by omega)])⟩
    · rw [if_neg isCut, ok_bind (slice_ok (by omega) (by omega))]
      rw [length_cons] at isCut
      refine .inr ⟨rest.take size, rest.take size, rest.drop size, rfl,
        (take_append_drop size rest).symm, rfl, fun value => ?_⟩
      have isLength : (rest.take size).length = size := by
        rw [length_take]
        omega
      rw [opcodeBytes, if_neg isSingle]
      simp only [if_neg (show ¬ (size : Int) + 1 < 0 by omega)]
      rw [if_neg]
      · rfl
      · rw [isSize, not_not, length_append, isLength, length_singleton]
        exact add_comm 1 size
  rw [if_neg isFixed, if_neg isFixed]
  dsimp only
  rw [drop_succ_cons, drop_zero]
  by_cases isCut : rest.length < (-length).toNat
  · rw [if_pos isCut, if_pos isCut]
    exact .inl ⟨rfl, .inl rfl⟩
  rw [if_neg isCut, if_neg isCut]
  by_cases isUnknown : length ≠ -1 ∧ length ≠ -2 ∧ length ≠ -4
  · rw [if_pos isUnknown, if_pos isUnknown]
    exact .inl ⟨rfl, .inl rfl⟩
  have sliced := slice_ok (Nat.zero_le (-length).toNat) (not_lt.mp isCut)
  rw [if_neg isUnknown, if_neg isUnknown, ok_bind sliced, ok_bind sliced]
  rw [drop_zero]
  obtain ⟨width, rfl⟩ : ∃ width : Nat, length = -width := ⟨(-length).toNat, by omega⟩
  rw [neg_neg, Int.toNat_natCast] at *
  have isWidth : (rest.take width).length = width := by
    rw [length_take]
    omega
  generalize isDataLen : decode (rest.take width) = dataLen
  by_cases isShort : (rest.drop width).length < dataLen
  · rw [if_pos isShort, if_pos isShort]
    exact .inl ⟨rfl, .inl rfl⟩
  rw [if_neg isShort, if_neg isShort,
    ok_bind (slice_ok (Nat.zero_le _) (not_lt.mp isShort)), drop_zero]
  refine .inr ⟨rest.take width ++ (rest.drop width).take dataLen, _, _, rfl,
    ?_, rfl, fun value => ?_⟩
  · rw [append_assoc, take_append_drop, take_append_drop]
  · have isLength : ((rest.drop width).take dataLen).length = dataLen := by
      rw [length_take]
      omega
    have encodes : encode width dataLen = rest.take width := by
      rw [← isDataLen]
      nth_rewrite 1 [← isWidth]
      exact encode_decode _
    rw [opcodeBytes, if_neg isSingle]
    simp only [if_pos (show -(width : Int) < 0 by omega), neg_neg,
      Int.toNat_natCast, isLength, encodes, isDataLen]
    rw [if_neg]
    · rfl
    · rw [not_not, length_append, length_cons, isLength]
      omega

theorem countOpcodes_nil (rounds : Nat) : countOpcodes rounds [] = .ok 0 := by
  cases rounds with
  | zero => rfl
  | succ rounds => rfl

/--
The counter counts the parsed opcodes, and a malformed one.  Only an opcode
whose entry in the table has the value of another is unparsed as that one.
-/
theorem parseOpcodes_result {rounds : Nat} (enough : script.length ≤ rounds) : ∃ pops,
    pops.length ≤ script.length ∧ ((parseOpcodes rounds script =
    (pops, some (.scriptError .malformedPush)) ∧ countOpcodes rounds script = .ok (pops.length + 1))
    ∨ (parseOpcodes rounds script = (pops, none) ∧ countOpcodes rounds script = .ok pops.length ∧
    ∃ unparsed, unparseScript pops = some unparsed ∧
    (unparsed = script ↔ ∀ pop ∈ pops, pop.value = pop.instr))) := by
  induction rounds generalizing script with
  | zero =>
    cases eq_nil_of_length_eq_zero (Nat.le_zero.mp enough)
    exact ⟨[], le_rfl, .inr ⟨rfl, rfl, [], rfl, by simp⟩⟩
  | succ rounds ih =>
    cases script with
    | nil => exact ⟨[], le_rfl, .inr ⟨rfl, rfl, [], rfl, by simp⟩⟩
    | cons instr rest =>
      rw [parseOpcodes, countOpcodes]
      rcases parseOpcode_cases instr rest (opcodeArray instr).length with
        ⟨fails, skips | skips⟩ | ⟨tail, data, after, isOk, rfl, skips, isBytes⟩
      · rw [fails, skips]
        exact ⟨[], Nat.zero_le _, .inl ⟨rfl, rfl⟩⟩
      · rw [fails, ok_bind skips]
        dsimp only
        rw [countOpcodes_nil]
        exact ⟨[], Nat.zero_le _, .inl ⟨rfl, rfl⟩⟩
      · rw [isOk, ok_bind skips]
        rw [length_cons, length_append] at enough
        rcases @ih after (by omega) with ⟨pops, _, result⟩
        refine ⟨⟨instr, data⟩ :: pops, ?_, ?_⟩
        · rw [length_cons, length_cons, length_append]
          omega
        rcases result with ⟨fails, counts⟩ | ⟨parses, counts, unparsed, unparses, same⟩
        · dsimp only
          rw [fails, ok_bind counts, add_comm]
          exact .inl ⟨rfl, rfl⟩
        · dsimp only
          rw [parses, ok_bind counts, add_comm]
          refine .inr ⟨rfl, rfl, (opcodeArray instr).value :: tail ++ unparsed, ?_, ?_⟩
          · rw [unparseScript, bytes, ParsedOpcode.opcode, isBytes, unparses]
            rfl
          · rw [forall_mem_cons, ← same, cons_append, cons_eq_cons, append_cancel_left_eq]
            rfl

theorem parsed_result (script : List UInt8) : (∃ pops, parsed script = .ok pops ∧
    pops.length ≤ script.length) ∨ parsed script = .error (.scriptError .malformedPush) := by
  rcases parseOpcodes_result (le_refl script.length) with ⟨pops, short, ⟨fails, _⟩ | ⟨parses, _⟩⟩
  · rw [parsed, parseScript, fails]
    exact .inr rfl
  · rw [parsed, parseScript, parses]
    exact .inl ⟨pops, rfl, short⟩

theorem length_le_of_parsed {pops : List ParsedOpcode}
    (isParsed : parsed script = .ok pops) : pops.length ≤ script.length := by
  rcases parsed_result script with ⟨_, isParsed', short⟩ | fails
  · rw [isParsed] at isParsed'
    cases isParsed'
    exact short
  · rw [isParsed] at fails
    cases fails

/--
Unparsing and counting invert and follow the parser, except that the opcodes
from `0xb2` to `0xbb` are unparsed as the ten after them.
-/
theorem parseScript_agrees_iff (script : List UInt8) : ((∀ pops, parseScript script = (pops, none) →
        unparseScript pops = some script ∧ countScriptOpcodes script = .ok pops.length) ∧
      ∀ pops failure, parseScript script = (pops, some failure) →
        failure = .scriptError .malformedPush ∧ countScriptOpcodes script = .ok (pops.length + 1)) ↔
    ∀ pops, parseScript script = (pops, none) →
      ∀ pop ∈ pops, pop.instr < 0xb2 ∨ 0xbb < pop.instr := by
  have ownValue : ∀ instr : UInt8, (opcodeArray instr).value = instr ↔ instr < 0xb2 ∨
      0xbb < instr := forall_byte (by decide +kernel)
  rw [parseScript, countScriptOpcodes]
  rcases parseOpcodes_result (le_refl script.length) with
    ⟨found, _, ⟨fails, counts⟩ | ⟨parses, counts, unparsed, unparses, same⟩⟩
  · rw [fails, counts]
    refine ⟨fun _ pops isParsed => ?_, fun _ => ⟨fun pops isParsed => ?_,
      fun pops failure isParsed => ?_⟩⟩
    · cases isParsed
    · cases isParsed
    · cases isParsed
      exact ⟨rfl, rfl⟩
  · rw [parses, counts]
    simp only [ParsedOpcode.value, ParsedOpcode.opcode, ownValue] at same
    constructor
    · rintro ⟨agrees, -⟩ pops isParsed
      cases isParsed
      have inverse := (agrees found rfl).1
      rw [unparses] at inverse
      exact same.mp (Option.some.inj inverse)
    · intro plain
      refine ⟨fun pops isParsed => ?_, fun pops failure isParsed => ?_⟩
      · cases isParsed
        rw [unparses, same.mpr (plain found rfl)]
        exact ⟨rfl, rfl⟩
      · cases isParsed

/-- `OP_UNKNOWN178` is unparsed as `OP_UNKNOWN188`. -/
theorem unparseScript_unknown178 : parseScript [0xb2] = ([⟨0xb2, []⟩], none) ∧
      unparseScript [⟨0xb2, []⟩] = some [0xbc] := by
  decide

end Htnd.Txscript.Parsing
