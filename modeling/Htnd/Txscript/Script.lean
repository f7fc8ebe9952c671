import Htnd.Lib.LittleEndian
import Htnd.Utxo.Entry

/-!
# Scripts and their opcodes

`txscript/opcode.go` and `txscript/script.go`: the opcode table, the parser and
the static count of signature operations.  A failure is a script error with its
code, a failed signature hash, a panic, or a loop that ran out of the rounds it
was given.  The descriptions of the errors and the names of the opcodes, which
stand in descriptions only, are left out.
-/

namespace Htnd.Txscript.Script

open Lib.LittleEndian Utxo.Entry

/-! ## Failures -/

/-- The codes of `txscript/error.go` that the modelled functions return. -/
inductive ErrorCode where
  | invalidIndex
  | unsupportedScriptVersion
  | earlyReturn
  | emptyStack
  | evalFalse
  | scriptUnfinished
  | invalidProgramCounter
  | scriptTooBig
  | elementTooBig
  | tooManyOperations
  | stackOverflow
  | invalidPubKeyCount
  | invalidSignatureCount
  | numberTooBig
  | verify
  | equalVerify
  | numEqualVerify
  | checkSigVerify
  | checkMultiSigVerify
  | disabledOpcode
  | reservedOpcode
  | malformedPush
  | invalidStackOperation
  | unbalancedConditional
  | minimalData
  | invalidSigHashType
  | sigLength
  | notPushOnly
  | pubKeyFormat
  | cleanStack
  | nullFail
  | unsatisfiedLockTime
  | minimalIf
deriving DecidableEq

inductive Failure where
  | scriptError (code : ErrorCode)
  | signatureHash
  | panicked
  | unfinished
deriving DecidableEq

universe u

/-- `items[index]`, which panics out of range. -/
def index {α : Type u} (items : List α) (position : Nat) : Except Failure α :=
  match items[position]? with
  | some item => .ok item
  | none => .error .panicked

/-- `items[low:high]`, which panics out of range. -/
def slice {α : Type u} (items : List α) (low high : Nat) : Except Failure (List α) :=
  if low ≤ high ∧ high ≤ items.length then
    .ok ((items.take high).drop low)
  else .error .panicked

/-! ## Limits and flags -/

def maxStackSize : Nat := 244

def maxScriptSize : Nat := 10000

def maxOpsPerScript : Nat := 201

def maxPubKeysPerMultiSig : Nat := 20

def maxScriptElementSize : Nat := 520

def mldsa44PublicKeySize : Nat := 1312

def mldsa44SignatureSize : Nat := 2420

abbrev ScriptFlags := UInt32

def scriptEnableDisabledOpcodes : ScriptFlags := 1

def scriptEnableMLDSA44 : ScriptFlags := 2

def isMLDSA44ElementSize (size : Nat) : Bool :=
  size == mldsa44PublicKeySize || size == mldsa44SignatureSize + 1

/-! ## The opcode table -/

/-- The handlers of the opcode table. -/
inductive OpFunc where
  | opcodeFalse | opcodePushData | opcode1Negate | opcodeReserved | opcodeN
  | opcodeNop | opcodeIf | opcodeNotIf | opcodeElse | opcodeEndif
  | opcodeVerify | opcodeReturn | opcodeToAltStack | opcodeFromAltStack
  | opcode2Drop | opcode2Dup | opcode3Dup | opcode2Over | opcode2Rot
  | opcode2Swap | opcodeIfDup | opcodeDepth | opcodeDrop | opcodeDup
  | opcodeNip | opcodeOver | opcodePick | opcodeRoll | opcodeRot | opcodeSwap
  | opcodeTuck | opcodeDisabled | opcodeSize | opcodeEqual
  | opcodeEqualVerify | opcode1Add | opcode1Sub | opcode2Mul | opcode2Div
  | opcodeNegate | opcodeAbs | opcodeNot | opcode0NotEqual | opcodeAdd
  | opcodeSub | opcodeMul | opcodeDiv | opcodeMod | opcodeLShift
  | opcodeRShift | opcodeBoolAnd | opcodeBoolOr | opcodeNumEqual
  | opcodeNumEqualVerify | opcodeNumNotEqual | opcodeLessThan
  | opcodeGreaterThan | opcodeLessThanOrEqual | opcodeGreaterThanOrEqual
  | opcodeMin | opcodeMax | opcodeWithin | opcodeCheckSigMLDSA44
  | opcodeSha256 | opcodeCheckMultiSigECDSA | opcodeBlake2b
  | opcodeCheckSigECDSA | opcodeCheckSig | opcodeCheckSigVerify
  | opcodeCheckMultiSig | opcodeCheckMultiSigVerify
  | opcodeCheckLockTimeVerify | opcodeCheckSequenceVerify | opcodeInvalid
deriving DecidableEq

/-- The handlers by opcode, other than those of data pushes and numbers. -/
def opfuncTable : List (UInt8 × OpFunc) :=
  [(0x00, .opcodeFalse), (0x4f, .opcode1Negate), (0x50, .opcodeReserved), (0x61, .opcodeNop),
    (0x62, .opcodeReserved), (0x63, .opcodeIf), (0x64, .opcodeNotIf), (0x65, .opcodeReserved),
    (0x66, .opcodeReserved), (0x67, .opcodeElse), (0x68, .opcodeEndif), (0x69, .opcodeVerify),
    (0x6a, .opcodeReturn), (0x6b, .opcodeToAltStack), (0x6c, .opcodeFromAltStack),
    (0x6d, .opcode2Drop), (0x6e, .opcode2Dup), (0x6f, .opcode3Dup), (0x70, .opcode2Over),
    (0x71, .opcode2Rot), (0x72, .opcode2Swap), (0x73, .opcodeIfDup), (0x74, .opcodeDepth),
    (0x75, .opcodeDrop), (0x76, .opcodeDup), (0x77, .opcodeNip), (0x78, .opcodeOver),
    (0x79, .opcodePick), (0x7a, .opcodeRoll), (0x7b, .opcodeRot), (0x7c, .opcodeSwap),
    (0x7d, .opcodeTuck), (0x7e, .opcodeDisabled), (0x7f, .opcodeDisabled), (0x80, .opcodeDisabled),
    (0x81, .opcodeDisabled), (0x82, .opcodeSize), (0x83, .opcodeDisabled), (0x84, .opcodeDisabled),
    (0x85, .opcodeDisabled), (0x86, .opcodeDisabled), (0x87, .opcodeEqual),
    (0x88, .opcodeEqualVerify), (0x89, .opcodeReserved), (0x8a, .opcodeReserved),
    (0x8b, .opcode1Add), (0x8c, .opcode1Sub), (0x8d, .opcode2Mul), (0x8e, .opcode2Div),
    (0x8f, .opcodeNegate), (0x90, .opcodeAbs), (0x91, .opcodeNot), (0x92, .opcode0NotEqual),
    (0x93, .opcodeAdd), (0x94, .opcodeSub), (0x95, .opcodeMul), (0x96, .opcodeDiv),
    (0x97, .opcodeMod), (0x98, .opcodeLShift), (0x99, .opcodeRShift), (0x9a, .opcodeBoolAnd),
    (0x9b, .opcodeBoolOr), (0x9c, .opcodeNumEqual), (0x9d, .opcodeNumEqualVerify),
    (0x9e, .opcodeNumNotEqual), (0x9f, .opcodeLessThan), (0xa0, .opcodeGreaterThan),
    (0xa1, .opcodeLessThanOrEqual), (0xa2, .opcodeGreaterThanOrEqual), (0xa3, .opcodeMin),
    (0xa4, .opcodeMax), (0xa5, .opcodeWithin), (0xa6, .opcodeCheckSigMLDSA44),
    (0xa8, .opcodeSha256), (0xa9, .opcodeCheckMultiSigECDSA), (0xaa, .opcodeBlake2b),
    (0xab, .opcodeCheckSigECDSA), (0xac, .opcodeCheckSig), (0xad, .opcodeCheckSigVerify),
    (0xae, .opcodeCheckMultiSig), (0xaf, .opcodeCheckMultiSigVerify),
    (0xb0, .opcodeCheckLockTimeVerify), (0xb1, .opcodeCheckSequenceVerify)]

/-- `opcode`, without its name. -/
structure Opcode where
  value : UInt8
  length : Int
  opfunc : OpFunc
deriving DecidableEq

/--
`opcodeArray`.  The entries of `OpUnknown178` to `OpUnknown187` carry the
values of the ten opcodes after them.
-/
def opcodeArray (instr : UInt8) : Opcode where
  value := if 0xb2 ≤ instr ∧ instr ≤ 0xbb then instr + 10 else instr
  length :=
    if 0x01 ≤ instr ∧ instr ≤ 0x4b then instr.toNat + 1
    else if instr = 0x4c then -1
    else if instr = 0x4d then -2
    else if instr = 0x4e then -4
    else 1
  opfunc :=
    if 0x01 ≤ instr ∧ instr ≤ 0x4e then .opcodePushData
    else if 0x51 ≤ instr ∧ instr ≤ 0x60 then .opcodeN
    else (opfuncTable.lookup instr).getD .opcodeInvalid

def op1 : UInt8 := 0x51

def op16 : UInt8 := 0x60

def opPushData4 : UInt8 := 0x4e

/-- `parsedOpcode`: an entry of the opcode table and the data. -/
structure ParsedOpcode where
  instr : UInt8
  data : List UInt8
deriving DecidableEq

namespace ParsedOpcode

def opcode (pop : ParsedOpcode) : Opcode := opcodeArray pop.instr

def value (pop : ParsedOpcode) : UInt8 := pop.opcode.value

/-- The byte opcodes and the arithmetic that are disabled. -/
def isDisabled (pop : ParsedOpcode) : Bool :=
  pop.value ∈ ([0x7e, 0x7f, 0x80, 0x81, 0x83, 0x84, 0x85, 0x86, 0x8d, 0x8e,
    0x95, 0x96, 0x97, 0x98, 0x99] : List UInt8)

/-- `OP_VERIF` and `OP_VERNOTIF`. -/
def alwaysIllegal (pop : ParsedOpcode) : Bool := pop.value ∈ ([0x65, 0x66] : List UInt8)

/-- `OP_IF`, `OP_NOTIF`, `OP_ELSE` and `OP_ENDIF`. -/
def isConditional (pop : ParsedOpcode) : Bool := pop.value ∈ ([0x63, 0x64, 0x67, 0x68] : List UInt8)

def checkMinimalDataPush (pop : ParsedOpcode) : Except Failure Unit := do
  let dataLen := pop.data.length
  if dataLen = 0 ∧ pop.value ≠ 0 then
    throw (.scriptError .minimalData)
  else if dataLen = 1 then
    let byte ← index pop.data 0
    if 1 ≤ byte ∧ byte ≤ 16 then
      if pop.value ≠ op1 + byte - 1 then throw (.scriptError .minimalData)
    else if byte = 0x81 then
      if pop.value ≠ 0x4f then throw (.scriptError .minimalData)
    else if pop.value.toNat ≠ dataLen then
      throw (.scriptError .minimalData)
  else if dataLen ≤ 75 then
    if pop.value.toNat ≠ dataLen then throw (.scriptError .minimalData)
  else if dataLen ≤ 255 then
    if pop.value ≠ 0x4c then throw (.scriptError .minimalData)
  else if dataLen ≤ 65535 then
    if pop.value ≠ 0x4d then throw (.scriptError .minimalData)

end ParsedOpcode

/-! ## Parsing -/

/-- The data of the first opcode of a script, and what follows it. -/
def parseOpcode (script : List UInt8) (length : Int) : Except Failure (List UInt8 × List UInt8) :=
  if length = 1 then .ok ([], script.drop 1)
  else if 1 < length then
    if script.length < length.toNat then
      .error (.scriptError .malformedPush)
    else do
      let data ← slice script 1 length.toNat
      return (data, script.drop length.toNat)
  else do
    let width := (-length).toNat
    let rest := script.drop 1
    if rest.length < width then throw (.scriptError .malformedPush)
    if length ≠ -1 ∧ length ≠ -2 ∧ length ≠ -4 then
      throw (.scriptError .malformedPush)
    let dataLen := decode (← slice rest 0 width)
    let rest := rest.drop width
    if rest.length < dataLen then throw (.scriptError .malformedPush)
    let data ← slice rest 0 dataLen
    return (data, rest.drop dataLen)

/--
`parseScriptTemplate`: the opcodes up to the first failure, and the failure.
Each round takes one opcode.
-/
def parseOpcodes : Nat → List UInt8 → List ParsedOpcode × Option Failure
  | _, [] => ([], none)
  | 0, _ :: _ => ([], some .unfinished)
  | rounds + 1, instr :: rest =>
    match parseOpcode (instr :: rest) (opcodeArray instr).length with
    | .error failure => ([], some failure)
    | .ok (data, script) =>
      let parsed := parseOpcodes rounds script
      (⟨instr, data⟩ :: parsed.1, parsed.2)

/-- `ParseScript`.  An opcode takes at least one byte. -/
def parseScript (script : List UInt8) : List ParsedOpcode × Option Failure :=
  parseOpcodes script.length script

/-- The opcodes of a script that parses. -/
def parsed (script : List UInt8) : Except Failure (List ParsedOpcode) :=
  match parseScript script with
  | (pops, none) => .ok pops
  | (_, some failure) => .error failure

def parseScriptAndVerifySize (script : List UInt8) : Except Failure (List ParsedOpcode) :=
  if maxScriptSize < script.length then .error (.scriptError .scriptTooBig)
  else parsed script

def isScriptHash (pops : List ParsedOpcode) : Bool :=
  match pops with
  | [first, second, third] => first.value == 0xaa && second.value == 0x20 && third.value == 0x87
  | _ => false

def isPushOnly (pops : List ParsedOpcode) : Bool := pops.all fun pop => pop.value ≤ op16

/-! ## Counting signature operations -/

/-- `asSmallInt` of an opcode from `OP_1` to `OP_16`. -/
def asSmallInt (pop : ParsedOpcode) : Nat :=
  if pop.value = 0 then 0 else (pop.value - (op1 - 1)).toNat

/-- The signature operations of one opcode, with the opcode before it. -/
def sigOpsOf (flags : ScriptFlags) (precise : Bool)
    (before : Option ParsedOpcode) (pop : ParsedOpcode) : Nat :=
  if pop.value = 0xac ∨ pop.value = 0xad ∨ pop.value = 0xab then 1
  else if pop.value = 0xa6 then
    if flags &&& scriptEnableMLDSA44 ≠ 0 then 1 else 0
  else if pop.value = 0xae ∨ pop.value = 0xaf ∨ pop.value = 0xa9 then
    match before with
    | some last =>
      if precise ∧ op1 ≤ last.value ∧ last.value ≤ op16 then asSmallInt last
      else maxPubKeysPerMultiSig
    | none => maxPubKeysPerMultiSig
  else 0

def countSigOps (flags : ScriptFlags) (precise : Bool) :
    Option ParsedOpcode → List ParsedOpcode → Nat
  | _, [] => 0
  | before, pop :: pops =>
    sigOpsOf flags precise before pop + countSigOps flags precise (some pop) pops

def getSigOpCount (pops : List ParsedOpcode) (precise : Bool) (flags : ScriptFlags) : Nat :=
  countSigOps flags precise none pops

def getPreciseSigOpCountFromParsedScript (scriptSig : List UInt8)
    (pops : List ParsedOpcode) (flags : ScriptFlags) : Nat :=
  if !isScriptHash pops then getSigOpCount pops true flags
  else match parseScript scriptSig with
    | (_, some _) => 0
    | (sigPops, none) =>
      if !isPushOnly sigPops then 0
      else match sigPops.getLast? with
        | none => 0
        | some last =>
          if last.data.length = 0 then 0
          else getSigOpCount (parseScript last.data).1 true flags

def getPreciseSigOpCountWithFlags (scriptSig : List UInt8)
    (scriptPubKey : ScriptPublicKey) (flags : ScriptFlags) : Nat :=
  getPreciseSigOpCountFromParsedScript scriptSig (parseScript scriptPubKey.script).1 flags

end Htnd.Txscript.Script
