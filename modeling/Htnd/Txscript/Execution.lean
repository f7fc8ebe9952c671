import Htnd.Txscript.Signatures

/-!
# The script engine

`txscript/engine.go`.  The program is the scripts with the position in them, and
what a pay-to-script-hash spend needs; only `Init` and `Step` change it.  An
engine is its settings, its program and its machine; the caches and the reused
values it points to are kept apart.  Traces are left out.
-/

namespace Htnd.Txscript.Execution

open Lib.Calls Utxo.Entry Consensus.Transactions Script Stacks Handlers
open Signatures

/-! ## Executing one opcode -/

def callOpfunc (primitives : Primitives) (settings : Settings)
    (op : ParsedOpcode) : SessionCall Unit :=
  match op.opcode.opfunc with
  | .opcodeFalse => onMachine opcodeFalse
  | .opcodePushData => onMachine (opcodePushData op)
  | .opcode1Negate => onMachine opcode1Negate
  | .opcodeReserved => onMachine opcodeReserved
  | .opcodeN => onMachine (opcodeN op)
  | .opcodeNop => onMachine opcodeNop
  | .opcodeIf => onMachine opcodeIf
  | .opcodeNotIf => onMachine opcodeNotIf
  | .opcodeElse => onMachine opcodeElse
  | .opcodeEndif => onMachine opcodeEndif
  | .opcodeVerify => onMachine opcodeVerify
  | .opcodeReturn => onMachine opcodeReturn
  | .opcodeToAltStack => onMachine opcodeToAltStack
  | .opcodeFromAltStack => onMachine opcodeFromAltStack
  | .opcode2Drop => onMachine opcode2Drop
  | .opcode2Dup => onMachine opcode2Dup
  | .opcode3Dup => onMachine opcode3Dup
  | .opcode2Over => onMachine opcode2Over
  | .opcode2Rot => onMachine opcode2Rot
  | .opcode2Swap => onMachine opcode2Swap
  | .opcodeIfDup => onMachine opcodeIfDup
  | .opcodeDepth => onMachine opcodeDepth
  | .opcodeDrop => onMachine opcodeDrop
  | .opcodeDup => onMachine opcodeDup
  | .opcodeNip => onMachine opcodeNip
  | .opcodeOver => onMachine opcodeOver
  | .opcodePick => onMachine opcodePick
  | .opcodeRoll => onMachine opcodeRoll
  | .opcodeRot => onMachine opcodeRot
  | .opcodeSwap => onMachine opcodeSwap
  | .opcodeTuck => onMachine opcodeTuck
  | .opcodeDisabled => onMachine opcodeDisabled
  | .opcodeSize => onMachine opcodeSize
  | .opcodeEqual => onMachine opcodeEqual
  | .opcodeEqualVerify => onMachine opcodeEqualVerify
  | .opcode1Add => onMachine opcode1Add
  | .opcode1Sub => onMachine opcode1Sub
  | .opcode2Mul => onMachine opcode2Mul
  | .opcode2Div => onMachine opcode2Div
  | .opcodeNegate => onMachine opcodeNegate
  | .opcodeAbs => onMachine opcodeAbs
  | .opcodeNot => onMachine opcodeNot
  | .opcode0NotEqual => onMachine opcode0NotEqual
  | .opcodeAdd => onMachine opcodeAdd
  | .opcodeSub => onMachine opcodeSub
  | .opcodeMul => onMachine opcodeMul
  | .opcodeDiv => onMachine opcodeDiv
  | .opcodeMod => onMachine opcodeMod
  | .opcodeLShift => onMachine opcodeLShift
  | .opcodeRShift => onMachine opcodeRShift
  | .opcodeBoolAnd => onMachine opcodeBoolAnd
  | .opcodeBoolOr => onMachine opcodeBoolOr
  | .opcodeNumEqual => onMachine opcodeNumEqual
  | .opcodeNumEqualVerify => onMachine opcodeNumEqualVerify
  | .opcodeNumNotEqual => onMachine opcodeNumNotEqual
  | .opcodeLessThan => onMachine opcodeLessThan
  | .opcodeGreaterThan => onMachine opcodeGreaterThan
  | .opcodeLessThanOrEqual => onMachine opcodeLessThanOrEqual
  | .opcodeGreaterThanOrEqual => onMachine opcodeGreaterThanOrEqual
  | .opcodeMin => onMachine opcodeMin
  | .opcodeMax => onMachine opcodeMax
  | .opcodeWithin => onMachine opcodeWithin
  | .opcodeSha256 => onMachine (replaceByHash primitives.sha256)
  | .opcodeBlake2b => onMachine (replaceByHash primitives.blake2b)
  | .opcodeCheckLockTimeVerify => onMachine (opcodeCheckLockTimeVerify settings)
  | .opcodeCheckSequenceVerify => onMachine (opcodeCheckSequenceVerify settings)
  | .opcodeInvalid => onMachine opcodeInvalid
  | .opcodeCheckSig => opcodeCheckSig primitives settings
  | .opcodeCheckSigVerify => opcodeCheckSigVerify primitives settings
  | .opcodeCheckSigECDSA => opcodeCheckSigECDSA primitives settings
  | .opcodeCheckSigMLDSA44 => opcodeCheckSigMLDSA44 primitives settings
  | .opcodeCheckMultiSig => opcodeCheckMultiSig primitives settings
  | .opcodeCheckMultiSigVerify => opcodeCheckMultiSigVerify primitives settings
  | .opcodeCheckMultiSigECDSA => opcodeCheckMultiSigECDSA primitives settings

/-- The tests that an opcode must pass even in a branch that is skipped. -/
def admitOpcode (settings : Settings) (pop : ParsedOpcode) : MachineCall Unit := do
  if pop.isDisabled ∧ settings.flags &&& scriptEnableDisabledOpcodes = 0 then
    scriptError .disabledOpcode
  if pop.alwaysIllegal then scriptError .reservedOpcode
  if op16 < pop.value then
    modify fun vm => { vm with numOps := vm.numOps + 1 }
    if maxOpsPerScript < (← get).numOps then scriptError .tooManyOperations
  else if maxScriptElementSize < pop.data.length ∧ !(settings.flags &&& scriptEnableMLDSA44 ≠ 0 &&
        isMLDSA44ElementSize pop.data.length) then
    scriptError .elementTooBig

def executeOpcode (primitives : Primitives) (settings : Settings)
    (pop : ParsedOpcode) : SessionCall Unit := do
  onMachine (admitOpcode settings pop)
  let executing := (← get).machine.isBranchExecuting
  if !executing ∧ !pop.isConditional then return
  if executing ∧ pop.value ≠ 0 ∧ pop.value ≤ opPushData4 then
    compute pop.checkMinimalDataPush
  callOpfunc primitives settings pop

/-! ## The program -/

/-- The fields of `Engine` that `Init` and `Step` change. -/
structure Program where
  scripts : List (List ParsedOpcode)
  scriptIdx : Nat
  scriptOff : Nat
  isP2SH : Bool
  savedFirstStack : Stack
deriving DecidableEq

/-- A running engine with the checks it uses. -/
structure Vm where
  program : Program
  session : Session

abbrev VmCall := ExceptT Failure (StateM Vm)

def onSession {α : Type} (call : SessionCall α) : VmCall α :=
  zoom Vm.session (fun session vm => { vm with session }) call

def onStack {α : Type} (call : StackCall α) : VmCall α := onSession (onMachine (onData call))

def onProgram (change : Program → Program) : VmCall Unit :=
  modify fun vm => { vm with program := change vm.program }

def validPC (program : Program) : Except Failure Unit := do
  if program.scripts.length ≤ program.scriptIdx then
    throw (.scriptError .invalidProgramCounter)
  let script ← index program.scripts program.scriptIdx
  if script.length ≤ program.scriptOff then
    throw (.scriptError .invalidProgramCounter)

def checkErrorCondition (finalScript : Bool) : VmCall Unit := do
  let program := (← get).program
  if program.scriptIdx < program.scripts.length then
    scriptError .scriptUnfinished
  if finalScript then
    let depth ← onStack depth
    if 1 < depth then scriptError .cleanStack
    else if depth < 1 then scriptError .emptyStack
  let v ← onStack popBool
  if !v then scriptError .evalFalse

def nextScript (program : Program) : Program := { program with scriptIdx := program.scriptIdx + 1 }

/-- Go on with the redeem script that the first script left. -/
def enterRedeemScript : VmCall Unit := do
  onProgram nextScript
  checkErrorCondition false
  let saved := (← get).program.savedFirstStack
  let script ← compute (index saved 0)
  let pops ← compute (parsed script)
  onProgram fun program => { program with scripts := program.scripts ++ [pops] }
  onStack (setStack (saved.drop 1))

/-- Go on with the next script; a pay-to-script-hash spend has three. -/
def enterNextScript : VmCall Unit := do
  let program := (← get).program
  if program.scriptIdx = 0 ∧ program.isP2SH then
    onProgram nextScript
    let saved ← onStack getStack
    onProgram fun program => { program with savedFirstStack := saved }
  else if program.scriptIdx = 1 ∧ program.isP2SH then
    enterRedeemScript
  else onProgram nextScript

def leaveScript : VmCall Unit := do
  if (← get).session.machine.condStack.length ≠ 0 then
    scriptError .unbalancedConditional
  onSession (onMachine (onAlt dropAll))
  onSession (onMachine (modify fun vm => { vm with numOps := 0 }))
  onProgram fun program => { program with scriptOff := 0 }
  enterNextScript

def skipEmptyScript : VmCall Unit := do
  let program := (← get).program
  if program.scriptIdx < program.scripts.length then
    let script ← compute (index program.scripts program.scriptIdx)
    if script.length ≤ program.scriptOff then onProgram nextScript

/-- What `Step` does after an opcode; whether the last script has ended. -/
def afterOpcode (scriptEnds : Bool) : VmCall Bool := do
  let dataDepth ← onStack depth
  let altDepth ← onSession (onMachine (onAlt depth))
  if maxStackSize < dataDepth + altDepth then scriptError .stackOverflow
  if scriptEnds then
    leaveScript
    skipEmptyScript
    let program := (← get).program
    return program.scripts.length ≤ program.scriptIdx
  else return false

/-- `Step`: execute the next opcode; whether the last script has ended. -/
def step (primitives : Primitives) (settings : Settings) : VmCall Bool := do
  let program := (← get).program
  compute (validPC program)
  let script ← compute (index program.scripts program.scriptIdx)
  let opcode ← compute (index script program.scriptOff)
  onProgram fun program => { program with scriptOff := program.scriptOff + 1 }
  onSession (executeOpcode primitives settings opcode)
  afterOpcode (script.length ≤ program.scriptOff + 1)

def steps (primitives : Primitives) (settings : Settings) : Nat → VmCall Unit
  | 0 => throw .unfinished
  | rounds + 1 => do
    let done ← step primitives settings
    if done then return else steps primitives settings rounds

/-- `Execute`, with the number of steps it may take. -/
def execute (primitives : Primitives) (settings : Settings) (rounds : Nat) : VmCall Unit := do
  if maxScriptPublicKeyVersion < settings.scriptVersion then
    scriptError .unsupportedScriptVersion
  steps primitives settings rounds
  checkErrorCondition true

/-! ## Engines -/

structure Engine where
  settings : Settings
  program : Program
  machine : Machine

def emptyProgram : Program := ⟨[], 0, 0, false, []⟩

def emptyMachine : Machine := ⟨[], [], [], 0⟩

/-- `Reset`.  The settings stay. -/
def reset (vm : Engine) : Engine := { vm with program := emptyProgram, machine := emptyMachine }

/-- `&Engine{}`. -/
def zeroEngine : Engine where
  settings := ⟨0, ⟨0, [], [], 0, subnetworkIDNative, 0, [], by decide⟩, 0, 0⟩
  program := emptyProgram
  machine := emptyMachine

def init (vm : Engine) (scriptPubKey : ScriptPublicKey) (tx : Transaction)
    (txIdx : Int) (flags : ScriptFlags) : Except Failure Engine := do
  if txIdx < 0 ∨ tx.inputs.length ≤ txIdx then
    throw (.scriptError .invalidIndex)
  let scriptSig := (← index tx.inputs txIdx.toNat).signatureScript
  if scriptSig.length = 0 ∧ scriptPubKey.script.length = 0 then
    throw (.scriptError .evalFalse)
  if maxScriptPublicKeyVersion < scriptPubKey.version then
    throw (.scriptError .unsupportedScriptVersion)
  let parsedScriptSig ← parseScriptAndVerifySize scriptSig
  if !isPushOnly parsedScriptSig then throw (.scriptError .notPushOnly)
  let parsedScriptPubKey ← parseScriptAndVerifySize scriptPubKey.script
  let scripts := [parsedScriptSig, parsedScriptPubKey]
  let scriptIdx :=
    if scriptSig.length = 0 then vm.program.scriptIdx + 1
    else vm.program.scriptIdx
  let isP2SH := isScriptHash (← index scripts 1)
  if isP2SH ∧ !isPushOnly (← index scripts 0) then
    throw (.scriptError .notPushOnly)
  return {
    settings := ⟨scriptPubKey.version, tx, txIdx.toNat, flags⟩
    program := { vm.program with
      scripts, scriptIdx, isP2SH := isP2SH || vm.program.isP2SH }
    machine := vm.machine }

def newEngine (scriptPubKey : ScriptPublicKey) (tx : Transaction)
    (txIdx : Int) (flags : ScriptFlags) : Except Failure Engine :=
  init zeroEngine scriptPubKey tx txIdx flags

/-- An engine that starts with the given checks. -/
def Engine.start (vm : Engine) (checks : Checks) : Vm := ⟨vm.program, vm.machine, checks⟩

/-- `Execute` on an engine: the verdict, and the checks it leaves. -/
def run (primitives : Primitives) (vm : Engine) (checks : Checks)
    (rounds : Nat) : Except Failure Unit × Checks :=
  let result := outcome (execute primitives vm.settings rounds) (vm.start checks)
  (result.1, result.2.session.checks)

/-- `Init` and then `Execute`: the verdict, and the checks it leaves. -/
def initAndExecute (primitives : Primitives) (vm : Engine)
    (scriptPubKey : ScriptPublicKey) (tx : Transaction) (txIdx : Int)
    (flags : ScriptFlags) (checks : Checks) (rounds : Nat) : Except Failure Unit × Checks :=
  match init vm scriptPubKey tx txIdx flags with
  | .error failure => (.error failure, checks)
  | .ok vm => run primitives vm checks rounds

end Htnd.Txscript.Execution
