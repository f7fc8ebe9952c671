import Htnd.Lib.GreedyMatching
import Htnd.Txscript.CacheSoundness
import Htnd.Txscript.Engines
import Htnd.Txscript.SignatureBounds

/-!
# Several signatures and several keys

`OP_CHECKMULTISIG` and `OP_CHECKMULTISIGECDSA` go through the public keys once
and give each signature the first key that verifies it.  They succeed if and
only if the signatures can be given keys in the same order at all.
-/

namespace Htnd.Txscript.MultiSignatures

open Lib.Calls Lib.GreedyMatching Utxo.Entry List
open ConsensusHashing.SignatureHash ConsensusHashing.Commitments Script Stacks
open Handlers Signatures Bounds SignatureBounds StepCases
open CacheSoundness Engines

/-! ## Signatures and keys -/

/-- Empty, or 64 bytes and a standard hash type. -/
def WellFormed (signature : Element) : Prop :=
  signature = [] ∨ ∃ body hashType, signature = body ++ [hashType] ∧
    body.length = 64 ∧ SigHashType.isStandardSigHashType hashType = true

/-- The parsed form of a signature without its hash type. -/
def parsedForm (scheme : CurveScheme) (signature : Element) : Option (List UInt8) :=
  match splitSignature signature with
  | .ok (_, body) => scheme.curve.deserializeSignature body
  | .error _ => none

/-- Whether a signature verifies under a key, with the hash of its type. -/
def verifies (scheme : CurveScheme) (hash : SigHashType → Except SigHashFailure DomainHash)
    (signature pubKey : Element) : Bool :=
  match splitSignature signature with
  | .error _ => false
  | .ok (hashType, body) =>
    match scheme.curve.deserializeSignature body,
        scheme.curve.deserializePubKey pubKey, hash hashType with
    | some parsedSignature, some parsedPubKey, .ok sigHash =>
      scheme.curve.verify sigHash parsedSignature parsedPubKey
    | _, _, _ => false

theorem splitSignature_append (body : List UInt8) (hashType : UInt8) :
    splitSignature (body ++ [hashType]) = .ok (hashType, body) := by
  have isLength : (body ++ [hashType]).length - 1 = body.length := by
    rw [length_append, length_singleton, Nat.add_sub_cancel]
  have last : index (body ++ [hashType]) body.length = .ok hashType :=
    index_of_some (List.getElem?_concat_length)
  have isBody : slice (body ++ [hashType]) 0 body.length = .ok body := by
    rw [slice, if_pos ⟨Nat.zero_le _, by simp⟩, drop_zero, take_left]
  rw [splitSignature, isLength, last, isBody]
  rfl

theorem verifies_append (scheme : CurveScheme) (pubKey : Element)
    {hash : SigHashType → Except SigHashFailure DomainHash}
    (body : List UInt8) {hashType : SigHashType} {sigHash : DomainHash}
    (isHash : hash hashType = .ok sigHash) : verifies scheme hash (body ++ [hashType]) pubKey =
      match scheme.curve.deserializeSignature body, scheme.curve.deserializePubKey pubKey with
      | some parsedSignature, some parsedPubKey =>
        scheme.curve.verify sigHash parsedSignature parsedPubKey
      | _, _ => false := by
  rw [verifies, splitSignature_append]
  dsimp only
  rw [isHash]
  cases scheme.curve.deserializeSignature body with
  | none => rfl
  | some parsedSignature =>
    cases scheme.curve.deserializePubKey pubKey with
    | none => rfl
    | some parsedPubKey => rfl

/-- What is stored about signatures is about these signatures. -/
structure Stored (scheme : CurveScheme) (signatures : List Element)
    (stored : List ParsedSigInfo) : Prop where
  length_eq : stored.length = signatures.length
  signature : ∀ (i : Nat) (info : ParsedSigInfo), stored[i]? = some info →
    signatures[i]? = some info.signature
  parsed : ∀ (i : Nat) (info : ParsedSigInfo), stored[i]? = some info →
    info.parsed = true → info.parsedSignature = parsedForm scheme info.signature

variable {scheme : CurveScheme}

theorem stored_map (signatures : List Element) : Stored scheme signatures
      (signatures.map fun signature => ⟨signature, none, false⟩) := by
  refine ⟨length_map _, ?_, ?_⟩
  · intro i info isInfo
    rw [List.getElem?_map, Option.map_eq_some_iff] at isInfo
    rcases isInfo with ⟨signature, isSig, rfl⟩
    exact isSig
  · intro i info isInfo isParsed
    rw [List.getElem?_map, Option.map_eq_some_iff] at isInfo
    rcases isInfo with ⟨signature, isSig, rfl⟩
    cases isParsed

theorem Stored.set {signatures : List Element} {stored : List ParsedSigInfo} {place : Nat}
    {signature : Element} (isStored : Stored scheme signatures stored)
    (isSig : signatures[place]? = some signature) :
    Stored scheme signatures (stored.set place ⟨signature, parsedForm scheme signature, true⟩) := by
  refine ⟨length_set.trans isStored.length_eq, ?_, ?_⟩
  · intro i info isInfo
    rw [List.getElem?_set] at isInfo
    split_ifs at isInfo with isPosition inRange
    · cases isInfo
      rw [← isPosition]
      exact isSig
    · exact isStored.signature i info isInfo
  · intro i info isInfo isParsed
    rw [List.getElem?_set] at isInfo
    split_ifs at isInfo with isPosition inRange
    · cases isInfo
      rfl
    · exact isStored.parsed i info isInfo isParsed

/-! ## The loop -/

section Loop

variable {primitives : Primitives} {settings : Settings} {strings : List (List UInt8)}
  {scheme : CurveScheme} {hash : SigHashType → Except SigHashFailure DomainHash}

variable (primitives settings strings) in
/-- A session with a given machine and sound caches. -/
structure Ready (machine : Machine) (vm : Session) : Prop where
  isMachine : vm.machine = machine
  sound : Sound primitives settings.tx strings vm.checks

theorem onChecks_ready {α : Type} {call : ChecksCall α} {answer : α} {machine : Machine}
    (answers : Answers primitives settings.tx strings call [] (.ok answer)) :
    Yields (Ready primitives settings strings machine) (onChecks call)
    (fun value vm => value = answer ∧ Ready primitives settings strings machine vm)
    (fun _ _ => False) := by
  intro vm ready
  have returned := answers.returns (by simp) vm.checks ready.sound
  have isOutcome : outcome (onChecks call) vm = ((outcome call vm.checks).1,
        { vm with checks := (outcome call vm.checks).2 }) := rfl
  rw [isOutcome]
  generalize outcome call vm.checks = result at returned ⊢
  rcases result with ⟨fails | value, checks⟩
  · cases returned.1
  · exact ⟨Except.ok.inj returned.1, ready.isMachine, returned.2⟩

variable (isSound : SchemeSound primitives settings.tx strings settings scheme hash)

variable (hashes : ∀ hashType, SigHashType.isStandardSigHashType hashType = true →
      ∃ sigHash, hash hashType = .ok sigHash) {pubKeys signatures : List Element}
  (keysFit : ∀ pubKey ∈ pubKeys, pubKey.length = scheme.pubKeyLength)
  (wellFormed : ∀ signature ∈ signatures, WellFormed signature)

include isSound hashes keysFit wellFormed

/-- The loop is the greedy pass over the signatures and keys that remain. -/
theorem multiSigLoop_greedy {machine : Machine} (total keyIdx sigIdx count : Nat)
    (stored : List ParsedSigInfo) (keysRemain : keyIdx + total = pubKeys.length + 1)
    (signaturesRemain : sigIdx + count = signatures.length)
    (isStored : Stored scheme signatures stored) :
    Yields (Ready primitives settings strings machine)
    (multiSigLoop primitives scheme settings pubKeys total keyIdx sigIdx count stored)
    (fun isOk vm => isOk = greedy (verifies scheme hash) (signatures.drop sigIdx)
    (pubKeys.drop keyIdx) ∧ Ready primitives settings strings machine vm) (fun _ _ => False) := by
  induction total generalizing keyIdx sigIdx count stored with
  | zero =>
    refine .pure fun vm ready => ⟨?_, ready⟩
    rw [drop_eq_nil_of_le (by omega : pubKeys.length ≤ keyIdx)]
    have isCount : (signatures.drop sigIdx).length = count := by
      rw [length_drop]
      omega
    rw [← isCount]
    cases signatures.drop sigIdx with
    | nil => rfl
    | cons signature rest => rfl
  | succ total ih =>
    rw [multiSigLoop]
    by_cases noneLeft : count = 0
    · rw [if_pos noneLeft]
      refine .pure fun vm ready => ⟨?_, ready⟩
      rw [drop_eq_nil_of_le (by omega), greedy]
    rw [if_neg noneLeft]
    by_cases tooFew : total < count
    · rw [if_pos tooFew]
      refine .pure fun vm ready => ⟨?_, ready⟩
      rw [greedy_of_longer]
      rw [length_drop, length_drop]
      omega
    rw [if_neg tooFew]
    have inSignatures : sigIdx < signatures.length := by omega
    have inPubKeys : keyIdx < pubKeys.length := by omega
    have isPubKey := List.getElem?_eq_getElem inPubKeys
    generalize isKey : pubKeys[keyIdx] = pubKey at isPubKey
    have inStored : sigIdx < stored.length := by
      rw [isStored.length_eq]
      exact inSignatures
    have isInfo := List.getElem?_eq_getElem inStored
    generalize isSigInfo : stored[sigIdx] = sigInfo at isInfo
    have isSignature := isStored.signature _ _ isInfo
    have isSig := (List.getElem?_eq_some_iff.mp isSignature).2
    rw [index_of_some isInfo, compute_ok, index_of_some isPubKey,
      compute_ok, drop_eq_getElem_cons inSignatures, drop_eq_getElem_cons inPubKeys, isKey, isSig]
    dsimp only
    have skip : verifies scheme hash sigInfo.signature pubKey = false → ∀ stored',
        Stored scheme signatures stored' → Yields (Ready primitives settings strings machine)
        (multiSigLoop primitives scheme settings pubKeys total (keyIdx + 1) sigIdx count stored')
        (fun isOk vm => isOk = greedy (verifies scheme hash)
        (sigInfo.signature :: signatures.drop (sigIdx + 1)) (pubKey :: pubKeys.drop (keyIdx + 1)) ∧
        Ready primitives settings strings machine vm) (fun _ _ => False) := by
      intro fails stored' isStored'
      have rest := ih (keyIdx + 1) sigIdx count stored' (by omega) signaturesRemain isStored'
      rw [drop_eq_getElem_cons inSignatures, isSig] at rest
      rwa [greedy, if_neg (by rw [fails]; exact Bool.false_ne_true)]
    rcases wellFormed _ (mem_of_getElem? isSignature) with
      empty | ⟨body, hashType, isAppend, isLength, isStandard⟩
    · rw [if_pos (by rw [empty]; rfl)]
      exact skip (by rw [empty]; rfl) stored isStored
    have isSplit := splitSignature_append body hashType
    have notEmpty : sigInfo.signature.length ≠ 0 := by
      rw [isAppend, length_append]
      exact Nat.succ_ne_zero _
    have isForm : parsedForm scheme sigInfo.signature = scheme.curve.deserializeSignature body := by
      rw [isAppend, parsedForm, isSplit]
    have isParsed : parseSigInfo scheme sigInfo hashType body =
        pure (scheme.curve.deserializeSignature body) := by
      rw [parseSigInfo]
      cases parsed : sigInfo.parsed with
      | false =>
        rw [isStandard, decide_eq_true isLength]
        rfl
      | true =>
        rw [isStored.parsed _ _ isInfo parsed, isForm]
        rfl
    have storedNext : Stored scheme signatures (stored.set sigIdx
        ⟨sigInfo.signature, scheme.curve.deserializeSignature body, true⟩) := by
      rw [← isForm]
      exact isStored.set isSignature
    rw [if_neg notEmpty, isAppend, isSplit, compute_ok]
    dsimp only
    rw [← isAppend, isParsed]
    obtain ⟨sigHash, isHash⟩ := hashes hashType isStandard
    have isVerified := verifies_append scheme pubKey body isHash
    rw [← isAppend] at isVerified
    have keyFits := decide_eq_true (keysFit pubKey (mem_of_getElem? isPubKey))
    cases isBody : scheme.curve.deserializeSignature body with
    | none =>
      rw [isBody] at isVerified storedNext
      exact skip isVerified _ storedNext
    | some parsedSig =>
      rw [isBody] at isVerified storedNext
      rw [keyFits]
      cases isKeyForm : scheme.curve.deserializePubKey pubKey with
      | none =>
        rw [isKeyForm] at isVerified
        exact skip isVerified _ storedNext
      | some parsedPubKey =>
        rw [isKeyForm] at isVerified
        dsimp only at isVerified ⊢
        have answers : Answers primitives settings.tx strings _ [] _ :=
          sigHash_answers (isSound.hashes hashType)
        rw [isHash] at answers
        refine (onChecks_ready answers).bind fun _ => .by_state fun vm hashed => ?_
        rw [hashed.1]
        have checked := (onChecks_ready (check_answers isSound
          primitives.evicted sigHash parsedSig parsedPubKey)).of_state hashed.2
        refine checked.bind fun valid => .by_state fun _ returned => ?_
        rw [← isVerified] at returned
        cases valid with
        | false => exact (skip returned.1.symm _ storedNext).of_state returned.2
        | true =>
          rw [greedy, if_pos returned.1.symm]
          exact (ih _ _ _ _ (by omega) (by omega) storedNext).of_state returned.2

end Loop

/-! ## The opcodes -/

/-- The operands on a stack, from its top, and what is below them. -/
structure Operands (scheme : CurveScheme) (vm : Machine) where
  numPubKeys : Element
  pubKeys : List Element
  numSignatures : Element
  signatures : List Element
  rest : Stack
  isStack : vm.dstack = numPubKeys :: (pubKeys ++ numSignatures :: (signatures ++ rest))
  isPubKeyCount : makeScriptNum numPubKeys defaultScriptNumLen = .ok (pubKeys.length : Int)
  isSignatureCount : makeScriptNum numSignatures defaultScriptNumLen = .ok (signatures.length : Int)
  pubKeys_le : pubKeys.length ≤ maxPubKeysPerMultiSig
  signatures_le : signatures.length ≤ pubKeys.length
  numOps_le : vm.numOps + pubKeys.length ≤ maxOpsPerScript
  short : (vm.dstack.length : Int) ≤ maxInt32
  keysFit : ∀ pubKey ∈ pubKeys, pubKey.length = scheme.pubKeyLength
  wellFormed : ∀ signature ∈ signatures, WellFormed signature

section Popping

variable {machine : Machine} {item : Element} {rest : Stack}

theorem outcome_onData_popInt {n : Int}
    (isStack : machine.dstack = item :: rest)
    (short : (machine.dstack.length : Int) ≤ maxInt32)
    (number : makeScriptNum item defaultScriptNumLen = .ok n) :
    outcome (onData popInt) machine =
      (.ok n, { machine with dstack := rest }) := by
  rw [isStack] at short
  rw [onData, outcome_zoom, isStack, popInt, outcome_bind, outcome_pop_cons short]
  dsimp only
  rw [number]
  rfl

theorem outcome_popMany {items : List Element} {rest : Stack}
    (machine : Machine) (isStack : machine.dstack = items ++ rest)
    (short : (machine.dstack.length : Int) ≤ maxInt32) :
    outcome (popMany items.length) machine =
      (.ok items, { machine with dstack := rest }) := by
  induction items generalizing machine with
  | nil =>
    rw [nil_append] at isStack
    rw [← isStack]
    rfl
  | cons item items ih =>
    have shortRest : ((items ++ rest).length : Int) ≤ maxInt32 := by
      rw [isStack] at short
      simp only [length_append, length_cons] at short ⊢
      omega
    rw [cons_append] at isStack
    rw [isStack] at short
    rw [length_cons, popMany, outcome_bind, onData, outcome_zoom, isStack, outcome_pop_cons short]
    dsimp only
    rw [outcome_bind, ih { machine with dstack := items ++ rest } rfl shortRest]
    rfl

end Popping

section Opcodes

variable {primitives : Primitives} {settings : Settings} {strings : List (List UInt8)}
  {scheme : CurveScheme} {hash : SigHashType → Except SigHashFailure DomainHash}

theorem int32Of_length {size : Nat} (small : size ≤ maxPubKeysPerMultiSig) :
    int32Of (size : Int) = size := by
  have isSmall : (size : Int) ≤ 20 := Int.ofNat_le.mpr small
  have notLarge : ¬ maxInt32 < (size : Int) := by
    rw [maxInt32]
    omega
  have notLow : ¬ (size : Int) < minInt32 := by
    rw [minInt32]
    omega
  rw [int32Of, if_neg notLarge, if_neg notLow]

theorem Operands.outcome_popPubKeyCount {vm : Machine}
    (args : Operands scheme vm) :
    outcome popPubKeyCount vm = (.ok args.pubKeys.length, { vm with
        dstack := args.pubKeys ++ args.numSignatures :: (args.signatures ++ args.rest)
        numOps := vm.numOps + args.pubKeys.length }) := by
  have few := args.pubKeys_le
  have isCount := int32Of_length few
  have notMore := not_lt.mpr args.numOps_le
  rw [popPubKeyCount, outcome_bind, outcome_onData_popInt args.isStack
    args.short args.isPubKeyCount]
  dsimp only
  rw [isCount, if_neg (by omega), if_neg (by omega)]
  simp only [outcome_bind, outcome_modify, outcome_get, Int.toNat_natCast]
  rw [if_neg notMore]
  rfl

theorem outcome_popSignatureCount {machine : Machine} {item : Element}
    {rest : Stack} {total count : Nat} (isStack : machine.dstack = item :: rest)
    (short : (machine.dstack.length : Int) ≤ maxInt32)
    (number : makeScriptNum item defaultScriptNumLen =
      .ok (count : Int)) (fewer : count ≤ total)
    (few : total ≤ maxPubKeysPerMultiSig) :
    outcome (popSignatureCount total) machine =
      (.ok count, { machine with dstack := rest }) := by
  rw [popSignatureCount, outcome_bind, outcome_onData_popInt isStack short number]
  dsimp only
  rw [int32Of_length (le_trans fewer few), if_neg (by omega), if_neg (by omega)]
  rfl

/-- All operands are popped before the loop. -/
theorem Operands.outcome_checkMultiSig {vm : Session} (args : Operands scheme vm.machine) :
    ∃ machine : Machine, machine.dstack = args.rest ∧
      outcome (checkMultiSig primitives scheme settings) vm = outcome (do
          let isOk ← multiSigLoop primitives scheme settings
            args.pubKeys (args.pubKeys.length + 1) 0 0 args.signatures.length
            (args.signatures.map fun signature => ⟨signature, none, false⟩)
          require (isOk || args.signatures.all fun sig => sig.length = 0) .nullFail
          pushResult isOk) { vm with machine } := by
  have isStack := args.isStack
  have short := args.short
  rw [isStack, length_cons, length_append, length_cons, length_append] at short
  refine ⟨{ vm.machine with
    dstack := args.rest
    numOps := vm.machine.numOps + args.pubKeys.length }, rfl, ?_⟩
  rw [checkMultiSig, outcome_bind, onMachine, outcome_zoom, args.outcome_popPubKeyCount]
  dsimp only
  rw [outcome_bind, onMachine, outcome_zoom, outcome_popMany _ rfl (by
    simp only [length_append, length_cons]; omega)]
  dsimp only
  rw [outcome_bind, onMachine, outcome_zoom, outcome_popSignatureCount rfl (by
    simp only [length_append, length_cons]; omega)
    args.isSignatureCount args.signatures_le args.pubKeys_le]
  dsimp only
  rw [outcome_bind, onMachine, outcome_zoom, outcome_popMany _ rfl (by
    simp only [length_append]; omega)]

/--
What the opcode is for.  It succeeds if and only if the signatures are matched
with keys in order; if not it pushes false, or fails if any is not empty.
-/
structure Answered {vm : Session} (operands : Operands scheme vm.machine)
    (matched : Prop) (result : Except Failure Unit × Session) : Prop where
  pushesTrue : matched → result.1 = .ok () ∧
    result.2.machine.dstack = fromBool true :: operands.rest
  pushesFalse : ¬ matched → (∀ signature ∈ operands.signatures,
    signature = []) → result.1 = .ok () ∧ result.2.machine.dstack = fromBool false :: operands.rest
  nullFails : ¬ matched → (∃ signature ∈ operands.signatures, signature ≠ []) →
    result.1 = .error (.scriptError .nullFail) ∧ result.2.machine.dstack = operands.rest

theorem checkMultiSig_answered {vm : Session} (args : Operands scheme vm.machine)
    (isSound : SchemeSound primitives settings.tx strings settings scheme hash)
    (hashes : ∀ hashType, SigHashType.isStandardSigHashType hashType = true → ∃ sigHash,
    hash hashType = .ok sigHash) (sound : Sound primitives settings.tx strings vm.checks) :
    Answered args (Matched (fun signature pubKey => verifies scheme hash signature pubKey = true)
    args.signatures args.pubKeys) (outcome (checkMultiSig primitives scheme settings) vm) := by
  obtain ⟨machine, isRest, isOutcome⟩ :=
    @Operands.outcome_checkMultiSig primitives settings scheme vm args
  have loop := multiSigLoop_greedy isSound hashes args.keysFit
    args.wellFormed (args.pubKeys.length + 1) 0 0
    args.signatures.length _ (zero_add _) (zero_add _)
    (stored_map args.signatures) { vm with machine } ⟨rfl, sound⟩
  rw [drop_zero, drop_zero] at loop
  rw [isOutcome, outcome_bind, ← greedy_iff]
  generalize outcome (multiSigLoop primitives scheme settings args.pubKeys
    (args.pubKeys.length + 1) 0 0 args.signatures.length
    (args.signatures.map fun signature => ⟨signature, none, false⟩))
    { vm with machine } = result at loop ⊢
  rcases result with ⟨_ | isOk, vm'⟩
  · exact loop.elim
  obtain ⟨isSuccess, ready⟩ := loop
  rw [← isSuccess]
  have isStack : vm'.machine.dstack = args.rest := by rw [ready.isMachine, isRest]
  have allEmpty : (args.signatures.all fun sig => sig.length = 0) = true ↔
      ∀ signature ∈ args.signatures, signature = [] := by
    simp only [all_eq_true, decide_eq_true_eq, length_eq_zero_iff]
  cases isOk with
  | true =>
    refine ⟨fun _ => ⟨rfl, congrArg _ isStack⟩, ?_, ?_⟩
    · exact fun notMatched => absurd rfl notMatched
    · exact fun notMatched => absurd rfl notMatched
  | false =>
    refine ⟨nofun, fun _ empty => ?_, ?_⟩
    · rw [allEmpty.mpr empty]
      exact ⟨rfl, congrArg _ isStack⟩
    · rintro - ⟨signature, mem, isFilled⟩
      have notAll : (args.signatures.all fun sig => decide (sig.length = 0)) = false := by
        rw [← Bool.not_eq_true, allEmpty]
        exact fun empty => isFilled (empty signature mem)
      rw [notAll]
      exact ⟨rfl, isStack⟩

variable (primitives settings) in
/-- The hash that a signature of the current input is for. -/
def inputHash (kind : Scheme) : SigHashType → Except SigHashFailure DomainHash :=
  ConsensusHashing.Commitments.signatureHash primitives.writers settings.tx kind settings.txIdx

theorem inputHash_ok (spends : HasEntry settings) (kind : Scheme) {hashType : SigHashType}
    (isStandard : hashType.isStandardSigHashType = true) :
    ∃ sigHash, inputHash primitives settings kind hashType = .ok sigHash := by
  rcases spends with ⟨_, _, isInput, isEntry⟩
  rw [inputHash, ConsensusHashing.Commitments.signatureHash, schnorrHash, isStandard, isInput]
  dsimp only
  rw [isEntry]
  exact ⟨_, rfl⟩

/--
Both opcodes succeed if and only if there is an injection from the signatures to
the keys that preserves the order and under which each signature verifies.
-/
theorem multiSig_answered (primitives : Primitives) (settings : Settings)
    (strings : List (List UInt8)) (vm : Session) (spends : HasEntry settings)
    (sound : Sound primitives settings.tx strings vm.checks) :
    (∀ operands : Operands (schnorrScheme primitives) vm.machine,
      Answered operands (Matched (fun signature pubKey => verifies (schnorrScheme primitives)
            (inputHash primitives settings .schnorr) signature pubKey = true)
          operands.signatures operands.pubKeys)
        (outcome (opcodeCheckMultiSig primitives settings) vm)) ∧
      ∀ operands : Operands (ecdsaScheme primitives) vm.machine,
        Answered operands (Matched (fun signature pubKey => verifies (ecdsaScheme primitives)
              (inputHash primitives settings .ecdsa) signature pubKey = true)
            operands.signatures operands.pubKeys)
          (outcome (opcodeCheckMultiSigECDSA primitives settings) vm) :=
  ⟨fun operands => checkMultiSig_answered operands (schnorrScheme_sound rfl)
      (fun _ => inputHash_ok spends .schnorr) sound, fun operands => checkMultiSig_answered operands
      (ecdsaScheme_sound rfl) (fun _ => inputHash_ok spends .ecdsa) sound⟩

end Opcodes

/-! ## Two spends -/

/-- The settings of an input that spends an output. -/
def spendingSettings : Settings where
  scriptVersion := 0
  tx := spending [] 0 0 (some ⟨1, checkSigScript, 0, false⟩)
  txIdx := 0
  flags := 0

/-- A machine with the given stack. -/
def holding (dstack : Stack) : Session := ⟨⟨dstack, [], [], 0⟩, freshChecks⟩

/--
One empty signature and no key: there is no injection, and yet false is not
pushed, since there may not be more signatures than keys.  Without a signature
true is not pushed for 21 keys or where the operations are used up.
-/
theorem more_signatures_than_keys : ¬ Matched (fun signature pubKey =>
        verifies (schnorrScheme acceptingPrimitives)
          (inputHash acceptingPrimitives spendingSettings .schnorr) signature
          pubKey = true) [[]] [] ∧
      (outcome (opcodeCheckMultiSig acceptingPrimitives spendingSettings)
        (holding [[], [1], []])).1 = .error (.scriptError .invalidSignatureCount) ∧
      (outcome (opcodeCheckMultiSig acceptingPrimitives spendingSettings)
        (holding ([21] :: List.replicate 21 (List.replicate 32 6) ++ [[]]))).1 =
          .error (.scriptError .invalidPubKeyCount) ∧
      (outcome (opcodeCheckMultiSig acceptingPrimitives spendingSettings)
        ⟨⟨[[1], List.replicate 32 6, []], [], [], maxOpsPerScript⟩, freshChecks⟩).1 =
          .error (.scriptError .tooManyOperations) := by
  refine ⟨?_, rfl, rfl, rfl⟩
  rintro ⟨image, _, _⟩
  exact (image ⟨0, Nat.one_pos⟩).elim0

/-- A signature of 64 bytes for all of a transaction. -/
def fullSignature : Element := List.replicate 64 5 ++ [0x01]

def oneOfTwo : Operands (schnorrScheme acceptingPrimitives)
    (holding [[2], List.replicate 32 6, List.replicate 32 7, [1], fullSignature, [9]]).machine where
  numPubKeys := [2]
  pubKeys := [List.replicate 32 6, List.replicate 32 7]
  numSignatures := [1]
  signatures := [fullSignature]
  rest := [[9]]
  isStack := rfl
  isPubKeyCount := rfl
  isSignatureCount := rfl
  pubKeys_le := by decide
  signatures_le := by decide
  numOps_le := by decide
  short := by decide
  keysFit := by decide
  wellFormed := by
    intro signature member
    rw [mem_singleton] at member
    exact .inr ⟨_, _, member, by decide, by decide⟩

theorem multiSig_answered_oneOfTwo :
    (outcome (opcodeCheckMultiSig acceptingPrimitives spendingSettings)
      (holding [[2], List.replicate 32 6, List.replicate 32 7, [1],
        fullSignature, [9]])).2.machine.dstack = [[1], [9]] := by
  have sound : Sound acceptingPrimitives spendingSettings.tx [] freshChecks :=
    ⟨nofun, nofun, nofun, reusable_fresh _ _⟩
  have answered := (multiSig_answered acceptingPrimitives spendingSettings []
    (holding _) ⟨_, _, rfl, rfl⟩ sound).1 oneOfTwo
  have isOnly : oneOfTwo.signatures.length = 1 := rfl
  refine (answered.pushesTrue ⟨fun _ => ⟨0, by decide⟩, ?_, ?_⟩).2
  · intro i j isLess
    exact absurd isLess (by omega)
  · intro i
    have isFirst : i = ⟨0, by decide⟩ := Fin.ext (by omega)
    rw [isFirst]
    rfl

end Htnd.Txscript.MultiSignatures
