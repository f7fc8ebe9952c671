import Htnd.Txscript.Parsing
import Htnd.Txscript.SignatureBounds

/-!
# Steps stay in bounds

Executing an opcode leaves at most three items more on the stacks, each of a
permitted size, and counts the opcode if it is a counted one.
-/

namespace Htnd.Txscript.StepBounds

open Lib.Calls Lib.Fallible Script Stacks
open Handlers Signatures Execution Bounds HandlerBounds SignatureBounds Parsing

/-! ## The opcode table -/

/-- The handlers of arithmetic that is disabled. -/
def disabledFuncs : List OpFunc :=
  [.opcode2Mul, .opcode2Div, .opcodeMul, .opcodeDiv, .opcodeMod, .opcodeLShift, .opcodeRShift]

variable {pop : ParsedOpcode}

theorem isDisabled_of_opfunc (isDisabled : pop.opcode.opfunc ∈ disabledFuncs) :
    pop.isDisabled = true := by
  have table : ∀ instr : UInt8, (opcodeArray instr).opfunc ∈ disabledFuncs →
      ParsedOpcode.isDisabled ⟨instr, []⟩ = true := forall_byte (by decide +kernel)
  exact table pop.instr isDisabled

theorem value_le_of_pushData (isPush : pop.opcode.opfunc = .opcodePushData) : pop.value ≤ op16 := by
  have table : ∀ instr : UInt8, (opcodeArray instr).opfunc = .opcodePushData →
      (opcodeArray instr).value ≤ op16 := forall_byte (by decide +kernel)
  exact table pop.instr isPush

/-! ## Calling the handler -/

section Calling

variable {base growth : Nat} {prims : Primitives} {settings : Settings} {pop : ParsedOpcode}

theorem SessionBounded.succ {room : Nat} {vm : Session} (bound : SessionBounded base room vm) :
    SessionBounded base (room + 1) vm :=
  Bounded.succ bound

variable {call : SessionCall Unit}

theorem sessionGrows (grows : Grows (SessionBounded base) growth call fun _ => True)
    (small : growth ≤ 3 := by decide) : Grows (SessionBounded base) 3 call fun _ => True :=
  grows.mono (fun _ _ => SessionBounded.succ) small

theorem machineGrows {call : MachineCall Unit}
    (grows : Grows (Bounded base) growth call fun _ => True) (small : growth ≤ 3 := by decide) :
    Grows (SessionBounded base) 3 (onMachine call) fun _ => True :=
  sessionGrows (machine_grows grows) small

theorem stackGrows {call : StackCall Unit} (grows : Grows Sized growth call fun _ => True)
    (small : growth ≤ 3 := by decide) :
    Grows (SessionBounded base) 3 (onMachine (onData call)) fun _ => True :=
  machineGrows (data_grows grows) small

/-- A handler that checks the result of another. -/
theorem verifyGrows {code : ErrorCode} (grows : Grows (SessionBounded base) 1 call fun _ => True) :
    Grows (SessionBounded base) 3 (call >>= fun _ => onMachine (abstractVerify code)) fun _ =>
    True :=
  sessionGrows (grows.bind fun _ _ => machine_grows (abstractVerify_grows code))

theorem callOpfunc_grows (spends : HasEntry settings) (isEnabled : pop.isDisabled = false)
    (dataFits : pop.opcode.opfunc = .opcodePushData → Fits pop.data) :
    Grows (SessionBounded base) 3 (callOpfunc prims settings pop) fun _ => True := by
  have notDisabled : pop.opcode.opfunc ∉ disabledFuncs := by
    intro isDisabled
    rw [isDisabled_of_opfunc isDisabled] at isEnabled
    cases isEnabled
  have small : ∀ {n m : Int}, SmallNum n → SmallNum m →
      (n + m).natAbs < 2 ^ 63 ∧ (n - m).natAbs < 2 ^ 63 := by
    intro n m smallN smallM
    rw [SmallNum] at smallN smallM
    omega
  have smallOne : SmallNum 1 := by
    rw [SmallNum]
    decide
  rw [callOpfunc]
  cases isFunc : pop.opcode.opfunc with
  | opcodeFalse => exact stackGrows (pushBytes_grows (fits_of_le (by decide)))
  | opcodePushData => exact stackGrows (pushBytes_grows (dataFits isFunc))
  | opcode1Negate => exact stackGrows (pushInt_grows (by decide))
  | opcodeReserved | opcodeReturn | opcodeDisabled | opcodeInvalid =>
    exact machine_grows scriptError_grows
  | opcodeN =>
    refine stackGrows (pushInt_grows ?_)
    rw [Int.natAbs_natCast]
    exact lt_trans (UInt8.toNat_lt _) (by decide)
  | opcodeNop => exact machineGrows (.pure trivial)
  | opcodeIf | opcodeNotIf => exact machineGrows (beginConditional_grows _)
  | opcodeElse => exact machineGrows opcodeElse_grows
  | opcodeEndif => exact machineGrows opcodeEndif_grows
  | opcodeVerify => exact machineGrows (abstractVerify_grows _)
  | opcodeToAltStack =>
    exact machineGrows ((data_grows popBytes_grows).andThen
      fun _ fits => onAlt_grows (pushBytes_grows fits))
  | opcodeFromAltStack =>
    exact machineGrows ((onAlt_grows popBytes_grows).andThen
      fun _ fits => data_grows (pushBytes_grows fits))
  | opcode2Drop => exact stackGrows (dropN_grows 2)
  | opcode2Dup | opcode2Over => exact stackGrows (pushLoop_grows (peekBytes_grows _) 2)
  | opcode3Dup => exact stackGrows (pushLoop_grows (peekBytes_grows _) 3)
  | opcode2Rot | opcode2Swap => exact stackGrows (pushLoop_grows (nipN_grows _) 2)
  | opcodeIfDup => exact machineGrows opcodeIfDup_grows
  | opcodeDepth =>
    exact machineGrows ((data_grows depth_grows).andThen
      fun _ short => data_grows (pushInt_grows short))
  | opcodeDrop => exact stackGrows (dropN_grows 1)
  | opcodeDup | opcodeOver => exact stackGrows (pushLoop_grows (peekBytes_grows _) 1)
  | opcodeNip => exact machineGrows ((data_grows (nipN_grows 1)).andThen fun _ _ => .pure trivial)
  | opcodePick =>
    exact machineGrows ((data_grows popInt_grows).andThen fun _ _ => data_grows (pickN_grows _))
  | opcodeRoll =>
    exact machineGrows ((data_grows popInt_grows).andThen fun _ _ => data_grows (rollN_grows _))
  | opcodeRot | opcodeSwap => exact stackGrows (pushLoop_grows (nipN_grows _) 1)
  | opcodeTuck => exact stackGrows tuck_grows
  | opcodeSize => exact machineGrows opcodeSize_grows
  | opcodeEqual => exact machineGrows opcodeEqual_grows
  | opcodeEqualVerify =>
    exact machineGrows (opcodeEqual_grows.bind fun _ _ => abstractVerify_grows _)
  | opcode1Add =>
    exact machineGrows (replaceNumber_grows fun _ smallM => wrap64_natAbs (small smallM smallOne).1)
  | opcode1Sub =>
    exact machineGrows (replaceNumber_grows fun _ smallM => wrap64_natAbs (small smallM smallOne).2)
  | opcode2Mul | opcode2Div | opcodeMul | opcodeDiv | opcodeMod
  | opcodeLShift | opcodeRShift => exact absurd (isFunc ▸ by decide) notDisabled
  | opcodeNegate =>
    refine machineGrows (replaceNumber_grows fun m smallM => wrap64_natAbs ?_)
    rw [SmallNum] at smallM
    omega
  | opcodeAbs =>
    refine machineGrows (replaceNumber_grows fun m smallM => ?_)
    rw [SmallNum] at smallM
    split_ifs
    · exact wrap64_natAbs (by omega)
    · omega
  | opcodeNot =>
    refine machineGrows (replaceNumber_grows fun m _ => ?_)
    split_ifs
    · decide
    · decide
  | opcode0NotEqual =>
    refine machineGrows (replaceNumber_grows fun m smallM => ?_)
    split_ifs
    · decide
    · omega
  | opcodeAdd =>
    exact machineGrows (combineNumbers_grows fun _ _ smallN smallM =>
      wrap64_natAbs (small smallN smallM).1)
  | opcodeSub =>
    exact machineGrows (combineNumbers_grows fun _ _ smallN smallM =>
      wrap64_natAbs (small smallM smallN).2)
  | opcodeBoolAnd | opcodeBoolOr | opcodeNumEqual | opcodeNumNotEqual
  | opcodeLessThan | opcodeGreaterThan | opcodeLessThanOrEqual
  | opcodeGreaterThanOrEqual => exact machineGrows (compareNumbers_grows _)
  | opcodeNumEqualVerify =>
    exact machineGrows ((compareNumbers_grows _).bind fun _ _ => abstractVerify_grows _)
  | opcodeMin | opcodeMax =>
    refine machineGrows (combineNumbers_grows fun _ _ smallN smallM => ?_)
    rw [SmallNum] at smallN smallM
    split_ifs
    · omega
    · omega
  | opcodeWithin => exact machineGrows within_grows
  | opcodeSha256 | opcodeBlake2b => exact machineGrows (replaceByHash_grows _)
  | opcodeCheckLockTimeVerify => exact machineGrows (opcodeCheckLockTimeVerify_grows spends.inRange)
  | opcodeCheckSequenceVerify => exact machineGrows (opcodeCheckSequenceVerify_grows spends.inRange)
  | opcodeCheckSig => exact sessionGrows (checkSig_grows (schnorr_hashes spends _))
  | opcodeCheckSigVerify => exact verifyGrows (checkSig_grows (schnorr_hashes spends _))
  | opcodeCheckSigECDSA => exact sessionGrows (checkSig_grows (ecdsa_hashes spends _))
  | opcodeCheckSigMLDSA44 =>
    exact sessionGrows (opcodeCheckSigMLDSA44_grows (mldsa44_hashes spends _))
  | opcodeCheckMultiSig => exact sessionGrows (checkMultiSig_grows (schnorr_hashes spends _))
  | opcodeCheckMultiSigVerify => exact verifyGrows (checkMultiSig_grows (schnorr_hashes spends _))
  | opcodeCheckMultiSigECDSA => exact sessionGrows (checkMultiSig_grows (ecdsa_hashes spends _))

end Calling

/-! ## Executing an opcode -/

/-- An opcode that counts towards the limit of operations. -/
def isCounted (pop : ParsedOpcode) : Bool := op16 < pop.value

/-- Whether an opcode is counted, as a number. -/
def opCount (pop : ParsedOpcode) : Nat :=
  if isCounted pop then 1 else 0

/-- What the first tests of an opcode leave. -/
def Admitted (pop : ParsedOpcode) : Prop :=
  pop.isDisabled = false ∧ (pop.opcode.opfunc = .opcodePushData → Fits pop.data)

/-- The data of a push is checked without reading past it. -/
theorem checkMinimalDataPush_isError {failure : Failure}
    (fails : pop.checkMinimalDataPush = .error failure) : IsError failure := by
  rw [ParsedOpcode.checkMinimalDataPush] at fails
  by_cases isByte : pop.data.length = 1
  · rw [if_neg (by omega), if_pos isByte, ok_bind (index_ok (by omega))] at fails
    split_ifs at fails
    all_goals cases fails
    all_goals exact isError_script _
  · split_ifs at fails
    all_goals cases fails
    all_goals exact isError_script _

section Executing

variable {base room : Nat} {prims : Primitives} {settings : Settings} {pop : ParsedOpcode}
  (noDisabled : settings.flags &&& scriptEnableDisabledOpcodes = 0)

include noDisabled

theorem admitOpcode_yields : Yields (Bounded base room) (admitOpcode settings pop)
    (fun _ vm => Admitted pop ∧ Bounded (base + opCount pop) room vm)
    (fun fails _ => IsError fails) := by
  rw [admitOpcode]
  by_cases isDisabled : pop.isDisabled = true ∧ settings.flags &&& scriptEnableDisabledOpcodes = 0
  · rw [if_pos isDisabled]
    exact fun _ _ => isError_script _
  rw [if_neg isDisabled]
  have isEnabled : pop.isDisabled = false := by
    rw [Bool.eq_false_iff]
    exact fun disabled => isDisabled ⟨disabled, noDisabled⟩
  by_cases isIllegal : pop.alwaysIllegal = true
  · rw [if_pos isIllegal]
    exact fun _ _ => isError_script _
  rw [if_neg isIllegal]
  by_cases counted : op16 < pop.value
  · have notPush : pop.opcode.opfunc ≠ .opcodePushData := fun isPush =>
      absurd (value_le_of_pushData isPush) (UInt8.not_le.mpr counted)
    have isCount : opCount pop = 1 := by rw [opCount, isCounted, if_pos (decide_eq_true counted)]
    rw [if_pos counted, isCount]
    intro vm bound
    simp only [outcome_bind, outcome_modify, outcome_get]
    by_cases tooMany : maxOpsPerScript < vm.numOps + 1
    · rw [if_pos tooMany]
      exact isError_script _
    · rw [if_neg tooMany]
      exact ⟨⟨isEnabled, fun isPush => absurd isPush notPush⟩, { bound with
          base_le := Nat.succ_le_succ bound.base_le
          numOps_le := Nat.le_of_not_lt tooMany }⟩
  · have isCount : opCount pop = 0 := by
      rw [opCount, isCounted, if_neg (by simpa using counted)]
    rw [isCount]
    split_ifs with tooBig
    · exact fun _ _ => isError_script _
    refine .pure fun vm bound => ⟨⟨isEnabled, fun _ => ?_⟩, bound⟩
    by_cases isShort : pop.data.length ≤ maxScriptElementSize
    · exact .inl isShort
    refine .inr ?_
    by_contra notSize
    refine tooBig ⟨Nat.lt_of_not_le isShort, ?_⟩
    rw [Bool.eq_false_iff.mpr notSize, Bool.and_false]
    rfl

theorem executeOpcode_yields (spends : HasEntry settings) (fits : (room + 3 : Nat) ≤ maxInt32) :
    Yields (SessionBounded base room) (executeOpcode prims settings pop)
    (fun _ vm => SessionBounded (base + opCount pop) (room + 3) vm)
    (fun fails _ => IsError fails) := by
  have admits : Yields (SessionBounded base room) (onMachine (admitOpcode settings pop))
      (fun _ vm => Admitted pop ∧ SessionBounded (base + opCount pop) room vm)
      (fun fails _ => IsError fails) := Yields.zoom fun _ bound =>
      (admitOpcode_yields noDisabled).of_state bound
  refine admits.bind fun _ => .get fun vm admitted => ?_
  have handled : Grows (SessionBounded (base + opCount pop)) 3 (callOpfunc prims settings pop)
      fun _ => True := callOpfunc_grows spends admitted.1.1 admitted.1.2
  have minimal : Grows (SessionBounded (base + opCount pop)) 0 (compute pop.checkMinimalDataPush)
      fun _ => True := Grows.compute (fun _ _ => trivial) fun _ => checkMinimalDataPush_isError
  have ending : ∀ {call : SessionCall Unit}, Grows (SessionBounded (base + opCount pop)) 3 call
      (fun _ => True) → Yields (fun state => state = vm) call
      (fun _ vm => SessionBounded (base + opCount pop) (room + 3) vm)
      (fun fails _ => IsError fails) := fun grows => ((grows room fits).of_state admitted.2).imp
      (fun _ => id) (fun _ _ => And.right) fun _ _ => id
  dsimp only
  split_ifs
  · exact ending (sessionGrows (.pure trivial) (by decide))
  · exact ending (minimal.andThen fun _ _ => handled)
  · exact ending handled

end Executing

end Htnd.Txscript.StepBounds
