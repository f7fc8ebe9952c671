import Htnd.Consensus.Transactions
import Htnd.Txscript.Stacks

/-!
# Opcode handlers

The handlers of `txscript/opcode.go` that check no signature.  The fields of
`Engine` are grouped by who writes them: a handler changes the two stacks, the
conditional stack and the count of operations, and reads the settings, which
only `Init` writes.
-/

namespace Htnd.Txscript.Handlers

open Lib.Calls Lib.LittleEndian Utxo.Entry Consensus.Transactions Script Stacks

/-- The fields of `Engine` that `Init` sets and nothing changes. -/
structure Settings where
  scriptVersion : UInt16
  tx : Transaction
  txIdx : Nat
  flags : ScriptFlags

/-- `OpCondFalse`, `OpCondTrue` and `OpCondSkip`. -/
inductive Cond where
  | false
  | true
  | skip
deriving DecidableEq

/-- The fields of `Engine` that handlers change; a stack has its top first. -/
structure Machine where
  dstack : Stack
  astack : Stack
  condStack : List Cond
  numOps : Nat
deriving DecidableEq

abbrev MachineCall := ExceptT Failure (StateM Machine)

def onData {α : Type} (call : StackCall α) : MachineCall α :=
  zoom Machine.dstack (fun dstack vm => { vm with dstack }) call

def onAlt {α : Type} (call : StackCall α) : MachineCall α :=
  zoom Machine.astack (fun astack vm => { vm with astack }) call

def scriptError {σ α : Type} (code : ErrorCode) : ExceptT Failure (StateM σ) α :=
  throw (.scriptError code)

def Machine.isBranchExecuting (vm : Machine) : Bool :=
  match vm.condStack with
  | [] => true
  | last :: _ => last == .true

/-! ## Constants and control flow -/

def opcodeDisabled : MachineCall Unit := scriptError .disabledOpcode

def opcodeReserved : MachineCall Unit := scriptError .reservedOpcode

def opcodeInvalid : MachineCall Unit := scriptError .reservedOpcode

def opcodeFalse : MachineCall Unit := onData (pushByteArray [])

def opcodePushData (op : ParsedOpcode) : MachineCall Unit := onData (pushByteArray op.data)

def opcode1Negate : MachineCall Unit := onData (pushInt (-1))

def opcodeN (op : ParsedOpcode) : MachineCall Unit := onData (pushInt (op.value - (op1 - 1)).toNat)

def opcodeNop : MachineCall Unit := return

def popIfBool : MachineCall Bool := do
  let so ← onData popByteArray
  if so.length = 1 then
    if (← compute (index so 0)) = 0x01 then return true
  if so.length = 0 then return false
  scriptError .minimalIf

def pushCond (condVal : Cond) : MachineCall Unit :=
  modify fun vm => { vm with condStack := condVal :: vm.condStack }

/-- Begin a conditional whose first branch runs on the given value. -/
def beginConditional (runsOn : Bool) : MachineCall Unit := do
  if (← get).isBranchExecuting then
    let ok ← popIfBool
    pushCond (if ok == runsOn then .true else .false)
  else pushCond .skip

def opcodeIf : MachineCall Unit := beginConditional true

def opcodeNotIf : MachineCall Unit := beginConditional false

def opcodeElse : MachineCall Unit := do
  let vm ← get
  match vm.condStack with
  | [] => scriptError .unbalancedConditional
  | .true :: outer => set { vm with condStack := .false :: outer }
  | .false :: outer => set { vm with condStack := .true :: outer }
  | .skip :: _ => return

def opcodeEndif : MachineCall Unit := do
  let vm ← get
  match vm.condStack with
  | [] => scriptError .unbalancedConditional
  | _ :: outer => set { vm with condStack := outer }

def abstractVerify (c : ErrorCode) : MachineCall Unit := do
  let verified ← onData popBool
  if !verified then scriptError c

def opcodeVerify : MachineCall Unit := abstractVerify .verify

def opcodeReturn : MachineCall Unit := scriptError .earlyReturn

/-! ## Lock times -/

def verifyLockTime (txLockTime lockTime : UInt64) : MachineCall Unit := do
  if txLockTime < lockTime then scriptError .unsatisfiedLockTime

def verifyLockTimeThreshold (txLockTime threshold lockTime : UInt64) : MachineCall Unit := do
  if !((txLockTime < threshold && lockTime < threshold) ||
      (threshold ≤ txLockTime && threshold ≤ lockTime)) then
    scriptError .unsatisfiedLockTime

def verifyLockTimeWithThreshold (txLockTime threshold lockTime : UInt64) : MachineCall Unit := do
  verifyLockTimeThreshold txLockTime threshold lockTime
  verifyLockTime txLockTime lockTime

/-- An operand of at most eight bytes, padded with zeros, little endian. -/
def uint64Of (bytes : List UInt8) : UInt64 :=
  UInt64.ofNat (decode (bytes ++ List.replicate (8 - bytes.length) 0))

def popUint64 : MachineCall UInt64 := do
  let bytes ← onData popByteArray
  if 8 < bytes.length then scriptError .numberTooBig
  return uint64Of bytes

/-- `vm.tx.Inputs[vm.txIdx]`. -/
def currentInput (settings : Settings) : MachineCall TransactionInput :=
  compute (index settings.tx.inputs settings.txIdx)

def opcodeCheckLockTimeVerify (settings : Settings) : MachineCall Unit := do
  let stackLockTime ← popUint64
  verifyLockTimeWithThreshold settings.tx.lockTime lockTimeThreshold stackLockTime
  if (← currentInput settings).sequence = maxTxInSequenceNum then
    scriptError .unsatisfiedLockTime

def opcodeCheckSequenceVerify (settings : Settings) : MachineCall Unit := do
  let stackSequence ← popUint64
  if stackSequence &&& sequenceLockTimeDisabled ≠ 0 then return
  let txSequence := (← currentInput settings).sequence
  if txSequence &&& sequenceLockTimeDisabled ≠ 0 then
    scriptError .unsatisfiedLockTime
  verifyLockTime (txSequence &&& sequenceLockTimeMask) (stackSequence &&& sequenceLockTimeMask)

/-! ## Stack manipulation -/

def opcodeToAltStack : MachineCall Unit := do
  let so ← onData popByteArray
  onAlt (pushByteArray so)

def opcodeFromAltStack : MachineCall Unit := do
  let so ← onAlt popByteArray
  onData (pushByteArray so)

def opcode2Drop : MachineCall Unit := onData (dropN 2)

def opcode2Dup : MachineCall Unit := onData (dupN 2)

def opcode3Dup : MachineCall Unit := onData (dupN 3)

def opcode2Over : MachineCall Unit := onData (overN 2)

def opcode2Rot : MachineCall Unit := onData (rotN 2)

def opcode2Swap : MachineCall Unit := onData (swapN 2)

def opcodeIfDup : MachineCall Unit := do
  let so ← onData (peekByteArray 0)
  if asBool so then onData (pushByteArray so)

def opcodeDepth : MachineCall Unit := do
  onData (pushInt (← onData depth))

def opcodeDrop : MachineCall Unit := onData (dropN 1)

def opcodeDup : MachineCall Unit := onData (dupN 1)

def opcodeNip : MachineCall Unit := do
  let _ ← onData (nipN 1)

def opcodeOver : MachineCall Unit := onData (overN 1)

def opcodePick : MachineCall Unit := do
  let val ← onData popInt
  onData (pickN (int32Of val))

def opcodeRoll : MachineCall Unit := do
  let val ← onData popInt
  onData (rollN (int32Of val))

def opcodeRot : MachineCall Unit := onData (rotN 1)

def opcodeSwap : MachineCall Unit := onData (swapN 1)

def opcodeTuck : MachineCall Unit := onData tuck

def opcodeSize : MachineCall Unit := do
  let so ← onData (peekByteArray 0)
  onData (pushInt so.length)

def opcodeEqual : MachineCall Unit := do
  let a ← onData popByteArray
  let b ← onData popByteArray
  onData (pushBool (a == b))

def opcodeEqualVerify : MachineCall Unit := do
  opcodeEqual
  abstractVerify .equalVerify

/-! ## Arithmetic -/

def replaceNumber (change : Int → Int) : MachineCall Unit := do
  let m ← onData popInt
  onData (pushInt (change m))

def opcode1Add : MachineCall Unit := replaceNumber fun m => wrap64 (m + 1)

def opcode2Mul : MachineCall Unit := replaceNumber fun v => wrap64 (v * 2)

def opcode2Div : MachineCall Unit := replaceNumber fun v => v.tdiv 2

def opcode1Sub : MachineCall Unit := replaceNumber fun m => wrap64 (m - 1)

def opcodeNegate : MachineCall Unit := replaceNumber fun m => wrap64 (-m)

def opcodeAbs : MachineCall Unit := replaceNumber fun m => if m < 0 then wrap64 (-m) else m

def opcodeNot : MachineCall Unit := replaceNumber fun m => if m = 0 then 1 else 0

def opcode0NotEqual : MachineCall Unit := replaceNumber fun m => if m ≠ 0 then 1 else m

/-- Replace two numbers, the top one given first. -/
def combineNumbers (combine : Int → Int → Except Failure Int) : MachineCall Unit := do
  let v0 ← onData popInt
  let v1 ← onData popInt
  onData (pushInt (← compute (combine v0 v1)))

def opcodeAdd : MachineCall Unit := combineNumbers fun v0 v1 => .ok (wrap64 (v0 + v1))

def opcodeSub : MachineCall Unit := combineNumbers fun v0 v1 => .ok (wrap64 (v1 - v0))

def opcodeMul : MachineCall Unit := combineNumbers fun v0 v1 => .ok (wrap64 (v0 * v1))

def opcodeDiv : MachineCall Unit :=
  combineNumbers fun denom numer =>
    if denom = 0 then .error (.scriptError .invalidStackOperation)
    else .ok (wrap64 (numer.tdiv denom))

def opcodeMod : MachineCall Unit :=
  combineNumbers fun denom numer =>
    if denom = 0 then .error (.scriptError .invalidStackOperation)
    else .ok (numer.tmod denom)

def opcodeLShift : MachineCall Unit :=
  combineNumbers fun shiftBy value =>
    if shiftBy < 0 ∨ 63 < shiftBy then
      .error (.scriptError .invalidStackOperation)
    else .ok (wrap64 (value * 2 ^ shiftBy.toNat))

def opcodeRShift : MachineCall Unit :=
  combineNumbers fun shiftBy value =>
    if shiftBy < 0 ∨ 63 < shiftBy then
      .error (.scriptError .invalidStackOperation)
    else .ok (value / 2 ^ shiftBy.toNat)

/-- Replace two numbers by whether they pass a test, the top one given first. -/
def compareNumbers (test : Int → Int → Bool) : MachineCall Unit :=
  combineNumbers fun v0 v1 => .ok (if test v0 v1 then 1 else 0)

def opcodeBoolAnd : MachineCall Unit := compareNumbers fun v0 v1 => v0 ≠ 0 && v1 ≠ 0

def opcodeBoolOr : MachineCall Unit := compareNumbers fun v0 v1 => v0 ≠ 0 || v1 ≠ 0

def opcodeNumEqual : MachineCall Unit := compareNumbers fun v0 v1 => v0 = v1

def opcodeNumEqualVerify : MachineCall Unit := do
  opcodeNumEqual
  abstractVerify .numEqualVerify

def opcodeNumNotEqual : MachineCall Unit := compareNumbers fun v0 v1 => v0 ≠ v1

def opcodeLessThan : MachineCall Unit := compareNumbers fun v0 v1 => v1 < v0

def opcodeGreaterThan : MachineCall Unit := compareNumbers fun v0 v1 => v1 > v0

def opcodeLessThanOrEqual : MachineCall Unit := compareNumbers fun v0 v1 => v1 ≤ v0

def opcodeGreaterThanOrEqual : MachineCall Unit := compareNumbers fun v0 v1 => v1 ≥ v0

def opcodeMin : MachineCall Unit := combineNumbers fun v0 v1 => .ok (if v1 < v0 then v1 else v0)

def opcodeMax : MachineCall Unit := combineNumbers fun v0 v1 => .ok (if v1 > v0 then v1 else v0)

def opcodeWithin : MachineCall Unit := do
  let maxVal ← onData popInt
  let minVal ← onData popInt
  let x ← onData popInt
  onData (pushInt (if x ≥ minVal ∧ x < maxVal then 1 else 0))

/-! ## Hashes -/

/-- Replace the top item by its hash. -/
def replaceByHash (hash : List UInt8 → DomainHash) : MachineCall Unit := do
  let buf ← onData popByteArray
  onData (pushByteArray (hash buf).hashArray)

end Htnd.Txscript.Handlers
