import Htnd.Txscript.Runs

/-!
# New engines

`Init` returns an error, or an engine that stands before the first opcode of two
scripts that parsed, of which the first one only pushes data.
-/

namespace Htnd.Txscript.Engines

open Lib.Fallible Utxo.Entry Consensus.Transactions Script
open Handlers Signatures Execution Bounds Parsing Runs

section Opening

variable (scriptPubKey : ScriptPublicKey) (tx : Transaction) (txIdx : Int) (flags : ScriptFlags)

/-- An input whose scripts an engine accepts, with their opcodes. -/
structure Opens where
  input : TransactionInput
  sigPops : List ParsedOpcode
  pubKeyPops : List ParsedOpcode
  nonneg : 0 ≤ txIdx
  isInput : tx.inputs[txIdx.toNat]? = some input
  filled : ¬ (input.signatureScript.length = 0 ∧ scriptPubKey.script.length = 0)
  version_le : ¬ maxScriptPublicKeyVersion < scriptPubKey.version
  sigParsed : parseScriptAndVerifySize input.signatureScript = .ok sigPops
  pushOnly : isPushOnly sigPops = true
  pubKeyParsed : parseScriptAndVerifySize scriptPubKey.script = .ok pubKeyPops

variable {scriptPubKey tx txIdx}

/-- What `Init` makes of an engine. -/
def Opens.engineOn (opens : Opens scriptPubKey tx txIdx) (vm : Engine) : Engine where
  settings := ⟨scriptPubKey.version, tx, txIdx.toNat, flags⟩
  program := { vm.program with
    scripts := [opens.sigPops, opens.pubKeyPops]
    scriptIdx :=
      if opens.input.signatureScript.length = 0 then vm.program.scriptIdx + 1
      else vm.program.scriptIdx
    isP2SH := isScriptHash opens.pubKeyPops || vm.program.isP2SH }
  machine := vm.machine

/-- The engine before its first step. -/
def Opens.engine (opens : Opens scriptPubKey tx txIdx) : Engine where
  settings := ⟨scriptPubKey.version, tx, txIdx.toNat, flags⟩
  program := {
    scripts := [opens.sigPops, opens.pubKeyPops]
    scriptIdx := if opens.input.signatureScript.length = 0 then 1 else 0
    scriptOff := 0
    isP2SH := isScriptHash opens.pubKeyPops
    savedFirstStack := [] }
  machine := emptyMachine

variable (scriptPubKey tx txIdx)

theorem parseScript_result (script : List UInt8) :
    (∃ pops, parseScriptAndVerifySize script = .ok pops ∧ pops.length ≤ maxScriptSize) ∨ ∃ code,
    parseScriptAndVerifySize script = .error (.scriptError code) := by
  rw [parseScriptAndVerifySize]
  split_ifs with tooBig
  · exact .inr ⟨_, rfl⟩
  · rcases parsed_result script with ⟨pops, isParsed, _⟩ | fails
    · exact .inl ⟨pops, isParsed, by omega⟩
    · exact .inr ⟨_, fails⟩

theorem length_le_of_parseScript {script : List UInt8} {pops : List ParsedOpcode}
    (isParsed : parseScriptAndVerifySize script = .ok pops) : pops.length ≤ maxScriptSize := by
  rcases parseScript_result script with ⟨_, isParsed', short⟩ | ⟨_, fails⟩
  · rw [isParsed] at isParsed'
    cases isParsed'
    exact short
  · rw [isParsed] at fails
    cases fails

theorem init_result (vm : Engine) : (∃ opens : Opens scriptPubKey tx txIdx,
        init vm scriptPubKey tx txIdx flags = .ok (opens.engineOn flags vm)) ∨
      ∃ code, init vm scriptPubKey tx txIdx flags = .error (.scriptError code) := by
  rw [init]
  by_cases outOfRange : txIdx < 0 ∨ (tx.inputs.length : Int) ≤ txIdx
  · rw [if_pos outOfRange]
    exact .inr ⟨_, rfl⟩
  have inRange : txIdx.toNat < tx.inputs.length := by omega
  rw [if_neg outOfRange, ok_bind (index_ok inRange)]
  generalize isInput : tx.inputs[txIdx.toNat] = input
  have isInput' : tx.inputs[txIdx.toNat]? = some input := by
    rw [List.getElem?_eq_getElem inRange, isInput]
  by_cases empty : input.signatureScript.length = 0 ∧ scriptPubKey.script.length = 0
  · rw [if_pos empty]
    exact .inr ⟨_, rfl⟩
  rw [if_neg empty]
  by_cases isFuture : maxScriptPublicKeyVersion < scriptPubKey.version
  · rw [if_pos isFuture]
    exact .inr ⟨_, rfl⟩
  rw [if_neg isFuture]
  rcases parseScript_result input.signatureScript with ⟨sigPops, sigParsed, _⟩ | ⟨code, fails⟩
  swap
  · rw [fails]
    exact .inr ⟨code, rfl⟩
  rw [ok_bind sigParsed]
  by_cases pushOnly : isPushOnly sigPops = true
  swap
  · rw [if_pos (by simpa using pushOnly)]
    exact .inr ⟨_, rfl⟩
  rw [if_neg (by simpa using pushOnly)]
  rcases parseScript_result scriptPubKey.script with ⟨pubKeyPops, pubKeyParsed, _⟩ | ⟨code, fails⟩
  swap
  · rw [fails]
    exact .inr ⟨code, rfl⟩
  rw [ok_bind pubKeyParsed]
  refine .inl ⟨⟨input, sigPops, pubKeyPops, by omega, isInput', empty,
    isFuture, sigParsed, pushOnly, pubKeyParsed⟩, ?_⟩
  change (if _ then _ else _) = _
  rw [if_neg (by simp [pushOnly])]
  rfl

theorem newEngine_result : (∃ opens : Opens scriptPubKey tx txIdx,
        newEngine scriptPubKey tx txIdx flags = .ok (opens.engine flags)) ∨
      ∃ code, newEngine scriptPubKey tx txIdx flags = .error (.scriptError code) := by
  refine (init_result scriptPubKey tx txIdx flags zeroEngine).imp_left ?_
  rintro ⟨opens, isOk⟩
  refine ⟨opens, isOk.trans (congrArg Except.ok ?_)⟩
  rw [Opens.engineOn, show zeroEngine.program.isP2SH = false from rfl, Bool.or_false]
  rfl

variable {scriptPubKey tx txIdx} (opens : Opens scriptPubKey tx txIdx)

omit opens in
theorem settings_of_init {flags : ScriptFlags} {vm engine : Engine}
    (isEngine : init vm scriptPubKey tx txIdx flags = .ok engine) :
    engine.settings = ⟨scriptPubKey.version, tx, txIdx.toNat, flags⟩ := by
  rcases init_result scriptPubKey tx txIdx flags vm with ⟨opens, isOk⟩ | ⟨_, fails⟩
  · rw [isEngine] at isOk
    cases isOk
    rfl
  · rw [isEngine] at fails
    cases fails

theorem Opens.staged (checks : Checks) : Staged ((opens.engine flags).start checks) where
  small := Nat.zero_le _
  savedSmall := Nat.zero_le _
  scriptHash isP2SH _ := ⟨_, _, rfl, isP2SH⟩
  unsaved _ _ _ := ⟨rfl, rfl, rfl⟩

end Opening

/-! ## Spends to evaluate -/

/-- Libraries that parse every key and signature and accept all of them. -/
def acceptingPrimitives : Primitives where
  writers := ⟨fun _ => .filled 0, fun _ => .filled 0, fun _ => .filled 0⟩
  schnorr := ⟨some, some, fun _ _ _ => true⟩
  ecdsa := ⟨some, some, fun _ _ _ => true⟩
  mldsa44UnmarshalBinary := some
  mldsa44Verify _ _ _ := true
  sha256 _ := .filled 0
  blake2b _ := .filled 0
  evicted _ := 0
  evictedKey _ := 0

/-- No caches, and nothing hashed before. -/
def freshChecks : Checks := ⟨none, none, none, {}, 0, []⟩

theorem noPayload_length_lt : ([] : List UInt8).length < 2 ^ 63 := by
  decide

def spending (signatureScript : List UInt8) (sequence lockTime : UInt64)
    (utxoEntry : Option UTXOEntry) : Transaction where
  version := 0
  inputs := [⟨⟨.filled 7, 0⟩, signatureScript, sequence, 1, utxoEntry⟩]
  outputs := []
  lockTime := lockTime
  subnetworkID := subnetworkIDNative
  gas := 0
  payload := []
  payload_lt := noPayload_length_lt

/-- A signature for all of a transaction, and a key, as two pushes. -/
def signatureAndKey : List UInt8 :=
  (0x41 :: List.replicate 64 5) ++ [0x01] ++ (0x20 :: List.replicate 32 6)

/-- `OP_CHECKSIG`. -/
def checkSigScript : ScriptPublicKey := ⟨[0xac], 0, by decide⟩

end Htnd.Txscript.Engines
