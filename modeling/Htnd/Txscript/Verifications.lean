import Htnd.Txscript.Runs

/-!
# How many signatures an opcode verifies

An opcode verifies no more signatures than it is counted for.  A signature
opcode verifies one; the loop over several signatures verifies one for each
public key at most, and the number of public keys is on top of the stack.
-/

namespace Htnd.Txscript.Verifications

open Lib.Calls Utxo.Entry Consensus.Transactions ConsensusHashing.SignatureHash
open Script Stacks Handlers Signatures Execution Bounds Parsing StepCases

/-! ## Calls that verify a number of signatures -/

/-- Whether it fails or not, a call verifies so many signatures at most. -/
def Verifies {α : Type} (limit : Nat) (call : SessionCall α) : Prop :=
  ∀ vm, (outcome call vm).2.checks.verified ≤ vm.checks.verified + limit

namespace Verifies

variable {α β : Type} {limit limit' : Nat} {call : SessionCall α}

theorem pure (value : α) : Verifies limit (Pure.pure value) := fun _ => Nat.le_add_right _ _

theorem throw (fails : Failure) : Verifies limit (MonadExcept.throw fails : SessionCall α) :=
  fun _ => Nat.le_add_right _ _

theorem compute (run : Except Failure α) :
    Verifies limit (Htnd.Lib.Calls.compute run : SessionCall α) :=
  fun _ => Nat.le_add_right _ _

theorem onMachine (call : MachineCall α) : Verifies limit (onMachine call) :=
  fun _ => Nat.le_add_right _ _

theorem mono (verifies : Verifies limit call) (more : limit ≤ limit') : Verifies limit' call :=
  fun vm => le_trans (verifies vm) (Nat.add_le_add_left more _)

variable {next : α → SessionCall β}

theorem bind (first : Verifies limit call) (second : ∀ value, Verifies limit' (next value)) :
    Verifies (limit + limit') (call >>= next) := by
  intro vm
  have before := first vm
  rw [outcome_bind]
  generalize outcome call vm = result at before ⊢
  rcases result with ⟨_ | value, vm'⟩
  · dsimp only at before ⊢
    omega
  · have after := second value vm'
    dsimp only at before after ⊢
    omega

/-- A call that verifies nothing, before another. -/
theorem andThen (first : Verifies 0 call) (second : ∀ value, Verifies limit (next value)) :
    Verifies limit (call >>= next) := by
  have both := first.bind second
  rwa [zero_add] at both

/-- A call before others that verify nothing. -/
theorem thenNothing (first : Verifies limit call) (second : ∀ value, Verifies 0 (next value)) :
    Verifies limit (call >>= next) :=
  first.bind second

end Verifies

theorem sigHash_verifies (settings : Settings) (kind : SigHashType) (calculate : Transaction → Nat →
    SigHashType → ExceptT SigHashFailure (StateM SighashReusedValues) DomainHash) :
    Verifies 0 (onChecks (signatureHash settings kind calculate)) := by
  intro vm
  change (outcome (signatureHash settings kind calculate) vm.checks).2.verified ≤ _
  rw [signatureHash, outcome_bind, outcome_get]
  dsimp only
  generalize outcome (calculate settings.tx settings.txIdx kind)
    vm.checks.sigHashReusedValues = result
  rcases result with ⟨(_ | _) | _, _⟩
  · exact le_rfl
  · exact le_rfl
  · exact le_rfl

theorem mldsa44Verify_verifies (prims : Primitives) (sigHash : DomainHash)
    (pkBytes sigBytes : List UInt8) : Verifies 1
    (onChecks (mldsa44Verify prims sigHash pkBytes sigBytes)) := by
  intro vm
  change (outcome (mldsa44Verify prims sigHash pkBytes sigBytes) vm.checks).2.verified ≤ _
  rw [mldsa44Verify, outcome_bind, noteHashed, outcome_modify]
  dsimp only
  rw [outcome_bind, outcome_get]
  dsimp only
  split
  · split
    · exact Nat.le_succ _
    · exact le_rfl
  split
  · exact Nat.le_succ _
  split
  · exact Nat.le_succ _
  · split_ifs
    · exact le_rfl
    · exact le_rfl
    · exact le_rfl

theorem require_verifies (holds : Bool) (code : ErrorCode) : Verifies 0 (require holds code) := by
  rw [require]
  split_ifs
  · exact .throw _
  · exact .pure _

theorem parseSigInfo_verifies (scheme : CurveScheme) (sigInfo : ParsedSigInfo) (kind : SigHashType)
    (sig : List UInt8) : Verifies 0 (parseSigInfo scheme sigInfo kind sig) := by
  rw [parseSigInfo]
  split_ifs
  · refine (require_verifies _ _).andThen fun _ => ?_
    refine (require_verifies _ _).andThen fun _ => ?_
    exact .pure _
  · exact .pure _

section Handlers

variable {prims : Primitives} {settings : Settings} {scheme : CurveScheme}
  (keeps : ∀ cache checks, (scheme.setCache cache checks).verified = checks.verified)

include keeps

theorem checkSignature_verifies (evicted : Nat → Nat) (hash : DomainHash)
    (sig pubKey : List UInt8) : Verifies 1 (onChecks
    (scheme.checkSignature evicted hash sig pubKey)) := by
  intro vm
  change (outcome (scheme.checkSignature evicted hash sig pubKey) vm.checks).2.verified ≤ _
  rw [CurveScheme.checkSignature, outcome_bind, outcome_get]
  dsimp only
  split
  · exact le_rfl
  · split_ifs
    · exact Nat.le_succ _
    · exact le_of_eq (keeps _ _)
    · exact le_rfl

theorem checkSig_verifies : Verifies 1 (checkSig prims scheme settings) := by
  refine (Verifies.onMachine _).andThen fun _ => ?_
  refine (Verifies.onMachine _).andThen fun _ => ?_
  split_ifs
  · exact Verifies.onMachine _
  refine (Verifies.compute _).andThen fun split => ?_
  refine (require_verifies _ _).andThen fun _ => ?_
  refine (require_verifies _ _).andThen fun _ => ?_
  refine (require_verifies _ _).andThen fun _ => ?_
  refine (sigHash_verifies _ _ _).andThen fun sigHash => ?_
  cases sigHash with
  | none => exact .onMachine _
  | some sigHash =>
    dsimp only
    split
    · refine (checkSignature_verifies keeps _ _ _ _).thenNothing fun _ => ?_
      refine (require_verifies _ _).andThen fun _ => ?_
      exact .onMachine _
    · exact .onMachine _

/-- A round that verifies a signature leaves one public key fewer. -/
theorem multiSigLoop_verifies (pubKeys : List Element) (total keyIdx sigIdx count : Nat)
    (sigs : List ParsedSigInfo) : Verifies (total - 1)
    (multiSigLoop prims scheme settings pubKeys total keyIdx sigIdx count sigs) := by
  induction total generalizing keyIdx sigIdx count sigs with
  | zero => exact .pure _
  | succ total ih =>
    rw [multiSigLoop]
    by_cases noneLeft : count = 0
    · rw [if_pos noneLeft]
      exact .pure _
    rw [if_neg noneLeft]
    by_cases tooFew : total < count
    · rw [if_pos tooFew]
      exact .pure _
    rw [if_neg tooFew]
    have isMore : 1 + (total - 1) = total := by omega
    have skip := fun signatures' => (ih (keyIdx + 1) sigIdx count signatures').mono (Nat.sub_le _ 1)
    refine (Verifies.compute _).andThen fun sigInfo => ?_
    refine (Verifies.compute _).andThen fun pubKey => ?_
    by_cases empty : sigInfo.signature.length = 0
    · rw [if_pos empty]
      exact skip _
    rw [if_neg empty]
    refine (Verifies.compute _).andThen fun _ => ?_
    refine (parseSigInfo_verifies _ _ _ _).andThen fun parsedSig => ?_
    cases parsedSig with
    | none => exact skip _
    | some parsedSig =>
      refine (require_verifies _ _).andThen fun _ => ?_
      cases scheme.curve.deserializePubKey pubKey with
      | none => exact skip _
      | some parsedPubKey =>
        refine (sigHash_verifies _ _ _).andThen fun sigHash => ?_
        cases sigHash with
        | none => exact .throw _
        | some sigHash =>
          refine .mono ((checkSignature_verifies keeps _ _ _ _).bind
              fun valid => ?_) (le_of_eq isMore)
          cases valid with
          | false => exact ih _ _ _ _
          | true => exact ih _ _ _ _

/-- No more public keys than a limit; their number is on top of the stack. -/
def KeysLe (limit : Nat) (vm : Machine) : Prop :=
  maxPubKeysPerMultiSig ≤ limit ∨ ∀ so rest, vm.dstack = so :: rest → ∀ n,
    makeScriptNum so defaultScriptNumLen = .ok n → int32Of n ≤ limit

omit keeps in
theorem popPubKeyCount_yields (limit : Nat) :
    Yields (KeysLe limit) popPubKeyCount (fun count _ => count ≤ limit) (fun _ _ => True) := by
  have popped : Yields (KeysLe limit) (onData popInt)
      (fun n _ => maxPubKeysPerMultiSig ≤ limit ∨ int32Of n ≤ limit) (fun _ _ => True) := by
    refine .zoom fun vm few => popInt_yields.imp (fun _ => id) ?_ fun _ _ => id
    rintro n rest ⟨so, isTop, number⟩
    exact few.imp_right fun top => top so rest isTop n number
  refine popped.bind fun n => ?_
  dsimp only
  by_cases isNegative : int32Of n < 0
  · rw [if_pos isNegative]
    exact fun _ _ => trivial
  rw [if_neg isNegative]
  by_cases tooLarge : (maxPubKeysPerMultiSig : Int) < int32Of n
  · rw [if_pos tooLarge]
    exact fun _ _ => trivial
  rw [if_neg tooLarge]
  intro vm few
  simp only [outcome_bind, outcome_modify, outcome_get]
  by_cases tooMany : maxOpsPerScript < vm.numOps + (int32Of n).toNat
  · rw [if_pos tooMany]
    trivial
  · rw [if_neg tooMany]
    change (int32Of n).toNat ≤ limit
    omega

theorem checkMultiSig_verifies {limit : Nat} {vm : Session} (few : KeysLe limit vm.machine) :
    (outcome (checkMultiSig prims scheme settings) vm).2.checks.verified ≤ vm.checks.verified +
    limit := by
  have counted := popPubKeyCount_yields limit vm.machine few
  have isOutcome : outcome (onMachine popPubKeyCount) vm =
      ((outcome popPubKeyCount vm.machine).1,
        { vm with machine := (outcome popPubKeyCount vm.machine).2 }) := rfl
  rw [checkMultiSig, outcome_bind, isOutcome]
  generalize outcome popPubKeyCount vm.machine = result at counted ⊢
  rcases result with ⟨_ | total, machine⟩
  · exact Nat.le_add_right _ _
  refine Verifies.mono ?_ counted _
  refine (Verifies.onMachine _).andThen fun pubKeys => ?_
  refine (Verifies.onMachine _).andThen fun count => ?_
  refine (Verifies.onMachine _).andThen fun sigs => ?_
  refine (multiSigLoop_verifies keeps _ _ _ _ _ _).thenNothing fun isOk => ?_
  refine (require_verifies _ _).andThen fun _ => ?_
  exact .onMachine _

end Handlers

/-! ## Any opcode -/

section Opcodes

variable {prims : Primitives} {settings : Settings} {pop : ParsedOpcode}

/-- The handlers that verify signatures, with the values of their opcodes. -/
def signatureFuncs : List (OpFunc × UInt8) :=
  [(.opcodeCheckSig, 0xac), (.opcodeCheckSigVerify, 0xad), (.opcodeCheckSigECDSA, 0xab),
    (.opcodeCheckSigMLDSA44, 0xa6), (.opcodeCheckMultiSig, 0xae),
    (.opcodeCheckMultiSigVerify, 0xaf), (.opcodeCheckMultiSigECDSA, 0xa9)]

theorem value_of_signatureFunc {func : OpFunc} {value : UInt8}
    (isSig : (func, value) ∈ signatureFuncs)
    (isFunc : pop.opcode.opfunc = func) : pop.value = value := by
  have table : ∀ instr : UInt8, ∀ entry ∈ signatureFuncs, (opcodeArray instr).opfunc = entry.1 →
      (opcodeArray instr).value = entry.2 := forall_byte (by decide +kernel)
  exact table pop.instr _ isSig isFunc

theorem notSignature_of_isConditional (isCond : pop.isConditional = true) :
    pop.opcode.opfunc ∉ signatureFuncs.map Prod.fst := by
  have table : ∀ instr : UInt8, ParsedOpcode.isConditional ⟨instr, []⟩ = true →
      (opcodeArray instr).opfunc ∉ signatureFuncs.map Prod.fst := forall_byte (by decide +kernel)
  exact table pop.instr isCond

theorem callOpfunc_other (isIn : pop.opcode.opfunc ∉ signatureFuncs.map Prod.fst) (vm : Session) :
    (outcome (callOpfunc prims settings pop) vm).2.checks = vm.checks := by
  have onlyMachine : ∃ call, callOpfunc prims settings pop = onMachine call := by
    rw [callOpfunc]
    cases isFunc : pop.opcode.opfunc
    all_goals first
      | exact ⟨_, rfl⟩
      | exact absurd (isFunc ▸ by decide) isIn
  obtain ⟨call, isCall⟩ := onlyMachine
  rw [isCall]
  rfl

theorem opcodeCheckSigMLDSA44_verifies : Verifies (if settings.flags &&& scriptEnableMLDSA44 ≠
    0 then 1 else 0) (opcodeCheckSigMLDSA44 prims settings) := by
  rw [opcodeCheckSigMLDSA44]
  by_cases isOff : settings.flags &&& scriptEnableMLDSA44 = 0
  · rw [if_pos isOff]
    exact fun _ => Nat.le_add_right _ _
  rw [if_neg isOff, if_pos isOff]
  refine (Verifies.onMachine _).andThen fun _ => ?_
  refine (Verifies.onMachine _).andThen fun _ => ?_
  split_ifs
  · exact Verifies.onMachine _
  refine (Verifies.compute _).andThen fun _ => ?_
  refine (require_verifies _ _).andThen fun _ => ?_
  refine (require_verifies _ _).andThen fun _ => ?_
  refine (require_verifies _ _).andThen fun _ => ?_
  refine (sigHash_verifies _ _ _).andThen fun sigHash => ?_
  cases sigHash with
  | none => exact .onMachine _
  | some sigHash =>
    refine (mldsa44Verify_verifies _ _ _ _).thenNothing fun answer => ?_
    cases answer with
    | none => exact .onMachine _
    | some valid =>
      refine (require_verifies _ _).andThen fun _ => ?_
      exact .onMachine _

/--
A number from `OP_1` to `OP_16` before an opcode is on top of the stack when the
opcode is executed.
-/
def NumberOnTop (before : Option ParsedOpcode) (vm : Machine) : Prop :=
  ∀ last, before = some last → op1 ≤ last.value → last.value ≤ op16 → KeysLe (asSmallInt last) vm

variable {before : Option ParsedOpcode}

theorem keysLe_sigOpsOf {vm : Machine} {flags : ScriptFlags} (onTop : NumberOnTop before vm)
    (isMultiSig : pop.value = 0xae ∨ pop.value = 0xaf ∨ pop.value = 0xa9) :
    KeysLe (sigOpsOf flags true before pop) vm := by
  have notSig : ¬ (pop.value = 0xac ∨ pop.value = 0xad ∨ pop.value = 0xab) ∧ pop.value ≠ 0xa6 := by
    rcases isMultiSig with value | value | value
    · rw [value]
      decide
    · rw [value]
      decide
    · rw [value]
      decide
  rw [sigOpsOf.eq_def, if_neg notSig.1, if_neg notSig.2, if_pos isMultiSig]
  cases before with
  | none => exact .inl le_rfl
  | some last =>
    dsimp only
    split_ifs with number
    · exact onTop last rfl number.2.1 number.2.2
    · exact .inl le_rfl

/-- A handler that checks the result of another verifies nothing itself. -/
theorem verified_of_verify {call : SessionCall Unit} {code : ErrorCode} (vm : Session) :
    (outcome (call >>= fun _ => onMachine (abstractVerify code)) vm).2.checks.verified =
    (outcome call vm).2.checks.verified := by
  rw [outcome_bind]
  generalize outcome call vm = result
  rcases result with ⟨_ | _, _⟩
  · rfl
  · rfl

theorem callOpfunc_verifies {vm : Session} (onTop : NumberOnTop before vm.machine) :
    (outcome (callOpfunc prims settings pop) vm).2.checks.verified ≤ vm.checks.verified + sigOpsOf
    settings.flags true before pop := by
  have keepsSchnorr : ∀ cache checks, ((schnorrScheme prims).setCache cache checks).verified =
        checks.verified := fun _ _ => rfl
  have keepsECDSA : ∀ cache checks, ((ecdsaScheme prims).setCache cache checks).verified =
        checks.verified := fun _ _ => rfl
  by_cases isIn : pop.opcode.opfunc ∉ signatureFuncs.map Prod.fst
  · exact le_trans (le_of_eq (congrArg Checks.verified (callOpfunc_other isIn vm)))
      (Nat.le_add_right _ _)
  rw [not_not] at isIn
  obtain ⟨⟨_, _⟩, isSig, isFunc⟩ := List.mem_map.mp isIn
  have value := value_of_signatureFunc isSig isFunc.symm
  rw [callOpfunc, ← isFunc]
  simp only [signatureFuncs, List.mem_cons, Prod.mk.injEq, List.not_mem_nil, or_false] at isSig
  rcases isSig with ⟨rfl, rfl⟩ | ⟨rfl, rfl⟩ | ⟨rfl, rfl⟩ | ⟨rfl, rfl⟩ |
    ⟨rfl, rfl⟩ | ⟨rfl, rfl⟩ | ⟨rfl, rfl⟩
  · rw [sigOpsOf.eq_def, value]
    exact checkSig_verifies keepsSchnorr vm
  · rw [sigOpsOf.eq_def, value]
    exact le_trans (le_of_eq (verified_of_verify vm)) (checkSig_verifies keepsSchnorr vm)
  · rw [sigOpsOf.eq_def, value]
    exact checkSig_verifies keepsECDSA vm
  · rw [sigOpsOf.eq_def, value]
    exact opcodeCheckSigMLDSA44_verifies vm
  · exact checkMultiSig_verifies keepsSchnorr (keysLe_sigOpsOf onTop (.inl value))
  · exact le_trans (le_of_eq (verified_of_verify vm))
      (checkMultiSig_verifies keepsSchnorr (keysLe_sigOpsOf onTop (.inr (.inl value))))
  · exact checkMultiSig_verifies keepsECDSA (keysLe_sigOpsOf onTop (.inr (.inr value)))

theorem executeOpcode_verifies {vm : Session} (onTop : vm.machine.isBranchExecuting = true →
    NumberOnTop before vm.machine) : Yields (fun start => start = vm)
    (executeOpcode prims settings pop) (fun _ after => after.checks.verified ≤ vm.checks.verified +
    sigOpsOf settings.flags true before pop) (fun _ after => after.checks.verified ≤
    vm.checks.verified + sigOpsOf settings.flags true before pop) := by
  refine execute_cases ?_ ?_ ?_
  · exact fun _ _ _ => Nat.le_add_right _ _
  · rintro numOps isCalled - _ rfl
    have within : (outcome (callOpfunc prims settings pop) (counting vm numOps)).2.checks.verified ≤
        vm.checks.verified + sigOpsOf settings.flags true before pop := by
      by_cases executing : vm.machine.isBranchExecuting = true
      · exact callOpfunc_verifies (onTop executing)
      · have isIn := notSignature_of_isConditional (isCalled.resolve_left executing)
        rw [callOpfunc_other isIn]
        exact Nat.le_add_right _ _
    split
    · next isOutcome => rwa [isOutcome] at within
    · next isOutcome => rwa [isOutcome] at within
  · exact fun _ _ => Nat.le_add_right _ _

end Opcodes

end Htnd.Txscript.Verifications
