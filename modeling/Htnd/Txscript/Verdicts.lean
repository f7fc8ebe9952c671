import Htnd.Txscript.CacheSoundness
import Htnd.Txscript.Engines

/-!
# Verdicts do not depend on caches

Two engines with the same scripts and stacks, each with sound caches, take the
same steps: neither what is cached nor what was hashed before is told apart.
-/

namespace Htnd.Txscript.Verdicts

open Lib.Calls Lib.ObliviousCalls Utxo.Entry Consensus.Transactions
open ConsensusHashing.SignatureHash ConsensusHashing.Commitments Script Stacks
open Handlers Signatures Execution Engines CacheSoundness

section Sessions

variable (primitives : Primitives) (tx : Transaction) (strings : List (List UInt8))

/-- Sessions with the same machine and sound caches. -/
structure SameMachine (vm vm' : Session) : Prop where
  machine : vm.machine = vm'.machine
  sound : Sound primitives tx strings vm.checks
  sound' : Sound primitives tx strings vm'.checks

/-- A call of a session that does not tell sound caches apart. -/
abbrev Uncached {α : Type} (call : SessionCall α) : Prop :=
  Oblivious (SameMachine primitives tx strings) (fun vm => Within strings vm.checks) call

variable {primitives tx strings} {α β : Type}

theorem onMachine_plain (call : MachineCall α) :
    Uncached primitives tx strings (onMachine call) where
  narrows _ := id
  agrees vm vm' same _ := by
    rw [onMachine, outcome_zoom, outcome_zoom, same.machine]
    exact ⟨rfl, rfl, same.sound, same.sound'⟩

theorem onChecks_plain {call : ChecksCall α} {noted : List (List UInt8)} {answer : Except Failure α}
    (answers : Answers primitives tx strings call noted answer) :
    Uncached primitives tx strings (onChecks call) where
  narrows vm inside string mem := by
    refine inside string ?_
    change string ∈ (outcome call vm.checks).2.hashed
    rw [answers.hashed]
    exact List.mem_append_right noted mem
  agrees vm vm' same inside := by
    have isNoted : ∀ string ∈ noted, string ∈ strings := by
      intro string mem
      refine inside string ?_
      change string ∈ (outcome call vm.checks).2.hashed
      rw [answers.hashed]
      exact List.mem_append_left _ mem
    have returned := answers.returns isNoted vm.checks same.sound
    have returned' := answers.returns isNoted vm'.checks same.sound'
    exact ⟨returned.1.trans returned'.1.symm, same.machine, returned.2, returned'.2⟩

theorem pushResult_plain (valid : Bool) : Uncached primitives tx strings (pushResult valid) :=
  onMachine_plain _

/-- After a check of an encoding the encoding is known. -/
theorem require_plain {holds : Bool} {code : ErrorCode} {next : SessionCall α}
    (rest : holds = true → Uncached primitives tx strings next) :
    Uncached primitives tx strings (require holds code >>= fun _ => next) := by
  cases holds with
  | false => exact .throw _
  | true => exact rest rfl

end Sessions

/-! ## Signature opcodes -/

section Handlers

variable {primitives : Primitives} {settings : Settings} {strings : List (List UInt8)}
  {scheme : CurveScheme} {hash : SigHashType → Except SigHashFailure DomainHash}

theorem checkSig_plain (isSound : SchemeSound primitives settings.tx strings settings scheme hash) :
    Uncached primitives settings.tx strings (checkSig primitives scheme settings) := by
  refine (onMachine_plain _).bind fun _ => ?_
  refine (onMachine_plain _).bind fun _ => ?_
  split_ifs
  · exact pushResult_plain false
  refine (Oblivious.compute _).bind fun split => ?_
  refine require_plain fun _ => ?_
  refine require_plain fun _ => ?_
  refine require_plain fun _ => ?_
  refine (onChecks_plain (sigHash_answers (isSound.hashes split.1))).bind fun sigHash => ?_
  cases sigHash with
  | none => exact pushResult_plain false
  | some sigHash =>
    dsimp only
    split
    · refine (onChecks_plain (check_answers isSound _ _ _ _)).bind fun valid => ?_
      exact require_plain fun _ => pushResult_plain valid
    · exact pushResult_plain false

theorem opcodeCheckSigMLDSA44_plain (collisionFree : Apart primitives strings) :
    Uncached primitives settings.tx strings (opcodeCheckSigMLDSA44 primitives settings) := by
  rw [opcodeCheckSigMLDSA44]
  by_cases isDisabled : settings.flags &&& scriptEnableMLDSA44 = 0
  · rw [if_pos isDisabled]
    exact .throw _
  rw [if_neg isDisabled]
  refine (onMachine_plain _).bind fun _ => ?_
  refine (onMachine_plain _).bind fun _ => ?_
  split_ifs
  · exact pushResult_plain false
  refine (Oblivious.compute _).bind fun split => ?_
  refine require_plain fun _ => ?_
  refine require_plain fun _ => ?_
  refine require_plain fun isLength => ?_
  have returns := @hashOf_returns primitives.writers settings.tx settings.txIdx split.1 .mldsa44
  refine (onChecks_plain (sigHash_answers returns)).bind fun sigHash => ?_
  cases sigHash with
  | none => exact pushResult_plain false
  | some sigHash =>
    refine (onChecks_plain (mldsa44Verify_answers collisionFree
      (of_decide_eq_true isLength))).bind fun valid => ?_
    cases valid with
    | none => exact pushResult_plain false
    | some valid => exact require_plain fun _ => pushResult_plain true

theorem parseSigInfo_plain (sigInfo : ParsedSigInfo) (kind : SigHashType) (sig : List UInt8) :
    Uncached primitives settings.tx strings (parseSigInfo scheme sigInfo kind sig) := by
  rw [parseSigInfo]
  split_ifs
  · refine require_plain fun _ => ?_
    exact require_plain fun _ => .pure _
  · exact .pure _

theorem multiSigLoop_plain (isSound : SchemeSound primitives settings.tx strings settings scheme
    hash) (pubKeys : List Element) (total keyIdx sigIdx count : Nat) (sigs : List ParsedSigInfo) :
    Uncached primitives settings.tx strings (multiSigLoop primitives scheme settings pubKeys total
    keyIdx sigIdx count sigs) := by
  induction total generalizing keyIdx sigIdx count sigs with
  | zero => exact .pure _
  | succ total ih =>
    rw [multiSigLoop]
    by_cases noneLeft : count = 0
    · rw [if_pos noneLeft]
      exact .pure _
    rw [if_neg noneLeft]
    by_cases tooFew : total < count
    · rw [if_pos tooFew]
      exact .pure _
    rw [if_neg tooFew]
    refine (Oblivious.compute _).bind fun sigInfo => ?_
    refine (Oblivious.compute _).bind fun pubKey => ?_
    by_cases empty : sigInfo.signature.length = 0
    · rw [if_pos empty]
      exact ih _ _ _ _
    rw [if_neg empty]
    refine (Oblivious.compute _).bind fun split => ?_
    refine (parseSigInfo_plain _ _ _).bind fun parsedSig => ?_
    cases parsedSig with
    | none => exact ih _ _ _ _
    | some parsedSig =>
      refine require_plain fun _ => ?_
      cases scheme.curve.deserializePubKey pubKey with
      | none => exact ih _ _ _ _
      | some parsedPubKey =>
        refine (onChecks_plain (sigHash_answers (isSound.hashes split.1))).bind fun sigHash => ?_
        cases sigHash with
        | none => exact .throw _
        | some sigHash =>
          refine (onChecks_plain (check_answers isSound _
            _ _ _)).bind fun valid => ?_
          cases valid with
          | false => exact ih _ _ _ _
          | true => exact ih _ _ _ _

theorem checkMultiSig_plain (isSound : SchemeSound primitives settings.tx strings settings scheme
    hash) : Uncached primitives settings.tx strings (checkMultiSig primitives scheme settings) := by
  refine (onMachine_plain _).bind fun _ => ?_
  refine (onMachine_plain _).bind fun _ => ?_
  refine (onMachine_plain _).bind fun _ => ?_
  refine (onMachine_plain _).bind fun _ => ?_
  refine (multiSigLoop_plain isSound _ _ _ _ _ _).bind fun isOk => ?_
  exact require_plain fun _ => pushResult_plain isOk

end Handlers

/-! ## Steps -/

section Steps

variable {primitives : Primitives} {settings : Settings} {strings : List (List UInt8)}
  (collisionFree : Apart primitives strings)

include collisionFree

theorem callOpfunc_plain (pop : ParsedOpcode) :
    Uncached primitives settings.tx strings (callOpfunc primitives settings pop) := by
  have schnorr := @schnorrScheme_sound primitives _ strings settings rfl
  have ecdsa := @ecdsaScheme_sound primitives _ strings settings rfl
  rw [callOpfunc]
  cases pop.opcode.opfunc
  case opcodeCheckSig => exact checkSig_plain schnorr
  case opcodeCheckSigVerify =>
    exact (checkSig_plain schnorr).bind fun _ => onMachine_plain _
  case opcodeCheckSigECDSA => exact checkSig_plain ecdsa
  case opcodeCheckSigMLDSA44 =>
    exact opcodeCheckSigMLDSA44_plain collisionFree
  case opcodeCheckMultiSig => exact checkMultiSig_plain schnorr
  case opcodeCheckMultiSigVerify =>
    exact (checkMultiSig_plain schnorr).bind fun _ => onMachine_plain _
  case opcodeCheckMultiSigECDSA => exact checkMultiSig_plain ecdsa
  all_goals exact onMachine_plain _

theorem executeOpcode_plain (pop : ParsedOpcode) :
    Uncached primitives settings.tx strings (executeOpcode primitives settings pop) := by
  refine (onMachine_plain _).bind fun _ => ?_
  refine .get ?_ fun vm => ?_
  · intro vm _ same
    rw [same.machine]
  · dsimp only
    split_ifs
    · exact .pure _
    · exact (Oblivious.compute _).bind fun _ => callOpfunc_plain collisionFree pop
    · exact callOpfunc_plain collisionFree pop

end Steps

/-! ## Executions -/

section Executions

variable (primitives : Primitives) (tx : Transaction) (strings : List (List UInt8))

/-- Engines at the same place, with sound caches. -/
structure SameRun (vm vm' : Vm) : Prop where
  program : vm.program = vm'.program
  session : SameMachine primitives tx strings vm.session vm'.session

/-- A call of an engine that does not tell sound caches apart. -/
abbrev UncachedRun {α : Type} (call : VmCall α) : Prop :=
  Oblivious (SameRun primitives tx strings) (fun vm => Within strings vm.session.checks) call

variable {primitives tx strings} {α : Type}

theorem onSession_plain {call : SessionCall α} (uncached : Uncached primitives tx strings call) :
    UncachedRun primitives tx strings (onSession call) :=
  Oblivious.zoom uncached (fun _ => Iff.rfl) (fun _ _ => Iff.rfl) (fun _ _ same => same.session)
    fun _ _ _ _ same isSame => ⟨same.program, isSame⟩

theorem onStack_plain (call : StackCall α) : UncachedRun primitives tx strings (onStack call) :=
  onSession_plain (onMachine_plain _)

theorem onProgram_plain (change : Program → Program) :
    UncachedRun primitives tx strings (onProgram change) :=
  Oblivious.modify (fun _ => id) fun _ _ same => ⟨congrArg change same.program, same.session⟩

theorem checkError_plain (finalScript : Bool) :
    UncachedRun primitives tx strings (checkErrorCondition finalScript) := by
  have rest : UncachedRun primitives tx strings (do
      let v ← onStack popBool
      if !v then scriptError .evalFalse) := by
    refine (onStack_plain _).bind fun v => ?_
    split_ifs
    · exact .throw _
    · exact .pure _
  refine Oblivious.get (fun _ _ same => by rw [same.program]) fun vm => ?_
  by_cases unfinished : vm.program.scriptIdx < vm.program.scripts.length
  · rw [if_pos unfinished]
    exact .throw _
  rw [if_neg unfinished]
  cases finalScript with
  | false => exact rest
  | true =>
    refine (onStack_plain _).bind fun _ => ?_
    split_ifs
    · exact .throw _
    · exact .throw _
    · exact rest

theorem enterRedeemScript_plain : UncachedRun primitives tx strings enterRedeemScript := by
  refine (onProgram_plain _).bind fun _ => ?_
  refine (checkError_plain false).bind fun _ => ?_
  refine Oblivious.get (fun _ _ same => by rw [same.program]) fun _ => ?_
  refine (Oblivious.compute _).bind fun _ => ?_
  refine (Oblivious.compute _).bind fun _ => ?_
  refine (onProgram_plain _).bind fun _ => ?_
  exact onStack_plain _

theorem enterNextScript_plain : UncachedRun primitives tx strings enterNextScript := by
  refine Oblivious.get (fun _ _ same => by rw [same.program]) fun _ => ?_
  dsimp only
  split_ifs
  · refine (onProgram_plain _).bind fun _ => ?_
    refine (onStack_plain _).bind fun _ => ?_
    exact onProgram_plain _
  · exact enterRedeemScript_plain
  · exact onProgram_plain _

theorem leaveScript_plain : UncachedRun primitives tx strings leaveScript := by
  refine Oblivious.get (fun _ _ same => by rw [same.session.machine]) fun vm => ?_
  by_cases isOpen : vm.session.machine.condStack.length ≠ 0
  · rw [if_pos isOpen]
    exact .throw _
  rw [if_neg isOpen]
  refine (onSession_plain (onMachine_plain _)).bind fun _ => ?_
  refine (onSession_plain (onMachine_plain _)).bind fun _ => ?_
  refine (onProgram_plain _).bind fun _ => ?_
  exact enterNextScript_plain

theorem skipEmptyScript_plain : UncachedRun primitives tx strings skipEmptyScript := by
  refine Oblivious.get (fun _ _ same => by rw [same.program]) fun _ => ?_
  dsimp only
  split_ifs
  · refine (Oblivious.compute _).bind fun _ => ?_
    split_ifs
    · exact onProgram_plain _
    · exact Oblivious.pure _
  · exact Oblivious.pure _

theorem afterOpcode_plain (scriptEnds : Bool) :
    UncachedRun primitives tx strings (afterOpcode scriptEnds) := by
  refine (onStack_plain _).bind fun dataDepth => ?_
  refine (onSession_plain (onMachine_plain _)).bind fun altDepth => ?_
  by_cases overflow : (maxStackSize : Int) < dataDepth + altDepth
  · rw [if_pos overflow]
    exact .throw _
  rw [if_neg overflow]
  cases scriptEnds with
  | false => exact .pure _
  | true =>
    refine leaveScript_plain.bind fun _ => ?_
    refine skipEmptyScript_plain.bind fun _ => ?_
    refine Oblivious.get (fun _ _ same => by rw [same.program]) fun _ => ?_
    exact .pure _

end Executions

section Running

variable {primitives : Primitives} {settings : Settings} {strings : List (List UInt8)}
  (collisionFree : Apart primitives strings)

include collisionFree

theorem step_plain : UncachedRun primitives settings.tx strings (step primitives settings) := by
  refine Oblivious.get (fun _ _ same => by rw [same.program]) fun _ => ?_
  refine (Oblivious.compute _).bind fun _ => ?_
  refine (Oblivious.compute _).bind fun _ => ?_
  refine (Oblivious.compute _).bind fun opcode => ?_
  refine (onProgram_plain _).bind fun _ => ?_
  refine (onSession_plain (executeOpcode_plain collisionFree opcode)).bind fun _ => ?_
  exact afterOpcode_plain _

theorem steps_plain (rounds : Nat) : UncachedRun primitives settings.tx strings
    (steps primitives settings rounds) := by
  induction rounds with
  | zero => exact .throw _
  | succ rounds ih =>
    refine (step_plain collisionFree).bind fun _ => ?_
    split_ifs
    · exact .pure _
    · exact ih

theorem execute_plain (rounds : Nat) : UncachedRun primitives settings.tx strings
    (execute primitives settings rounds) := by
  rw [execute]
  split_ifs
  · exact (Oblivious.throw _).bind fun _ => (steps_plain collisionFree rounds).bind fun _ =>
      checkError_plain true
  · exact (steps_plain collisionFree rounds).bind fun _ => checkError_plain true

end Running

/-! ## Histories -/

/-- Caches without entries, or none, and nothing hashed. -/
structure Fresh (checks : Checks) : Prop where
  sigCache : ∀ cache, checks.sigCache = some cache → cache.validSigs = ∅
  sigCacheECDSA : ∀ cache, checks.sigCacheECDSA = some cache → cache.validSigs = ∅
  mldsa44Cache : ∀ cache, checks.mldsa44Cache = some cache →
    cache.validSigs = ∅ ∧ cache.publicKeys = ∅
  reused : checks.sigHashReusedValues = {}
  hashed : checks.hashed = []

/-- The caches, with other reused values of the signature hash. -/
def reusing (checks : Checks) (reused : SighashReusedValues) : Checks :=
  { checks with sigHashReusedValues := reused }

/--
Caches that earlier executions can leave, of any transactions on any engines,
each with values that are those of its transaction.
-/
inductive Left (primitives : Primitives) : Checks → Prop
  | fresh {checks : Checks} (isFresh : Fresh checks) : Left primitives checks
  | executed {checks : Checks} (left : Left primitives checks) (vm : Engine)
      (scriptPubKey : ScriptPublicKey) (tx : Transaction) (txIdx : Int) (flags : ScriptFlags)
      {reused : SighashReusedValues} (reusable : Reusable primitives.writers tx reused)
      (rounds : Nat) : Left primitives (initAndExecute primitives vm scriptPubKey tx txIdx flags
      (reusing checks reused) rounds).2

section Histories

variable {primitives : Primitives} {strings : List (List UInt8)}

variable {checks : Checks}

theorem sound_of_fresh (isFresh : Fresh checks)
    (tx : Transaction) : Sound primitives tx strings checks where
  schnorr cache isCache hash entry found := by
    rw [isFresh.sigCache cache isCache] at found
    cases found
  ecdsa cache isCache hash entry found := by
    rw [isFresh.sigCacheECDSA cache isCache] at found
    cases found
  mldsa44 cache isCache := by
    have empty := isFresh.mldsa44Cache cache isCache
    constructor
    · intro key found
      rw [empty.1] at found
      cases found
    · intro key _ found
      rw [empty.2] at found
      cases found
  reusable := by
    rw [isFresh.reused]
    exact reusable_fresh _ _

variable {reused : SighashReusedValues}

/-- Caches are sound whatever the transaction; the reused values are its own. -/
theorem sound_reusing {tx tx' : Transaction} (sound : Sound primitives tx strings checks)
    (reusable : Reusable primitives.writers tx' reused) :
    Sound primitives tx' strings (reusing checks reused) :=
  { sound with reusable }

section CollisionFree

variable (collisionFree : Apart primitives strings)

include collisionFree

variable {vm : Engine} {rounds : Nat}

theorem within_of_run
    (within : Within strings (run primitives vm checks rounds).2) : Within strings checks :=
  (execute_plain collisionFree rounds).narrows (vm.start checks) within

/-- Two executions of one engine with sound caches agree. -/
theorem run_agrees {checks' : Checks} (sound : Sound primitives vm.settings.tx strings checks)
    (sound' : Sound primitives vm.settings.tx strings checks')
    (within : Within strings (run primitives vm checks rounds).2) :
    (run primitives vm checks rounds).1 = (run primitives vm checks' rounds).1 ∧
    Sound primitives vm.settings.tx strings (run primitives vm checks rounds).2 := by
  have same : SameRun primitives vm.settings.tx strings (vm.start checks)
      (vm.start checks') := ⟨rfl, rfl, sound, sound'⟩
  have agree := (execute_plain collisionFree rounds).agrees _ _ same within
  exact ⟨agree.1, agree.2.session.sound⟩

/-- What earlier executions leave is sound. -/
theorem Left.sound (left : Left primitives checks) (within : Within strings checks)
    {tx : Transaction} (reusable : Reusable primitives.writers tx reused) :
    Sound primitives tx strings (reusing checks reused) := by
  induction left generalizing tx reused with
  | fresh isFresh => exact sound_reusing (sound_of_fresh isFresh tx) reusable
  | @executed checks left vm script tx' txIdx flags reused' reusable' rounds ih =>
      rw [initAndExecute] at within ⊢
      cases isInit : init vm script tx' txIdx flags with
      | error fails =>
        rw [isInit] at within
        exact ih within reusable
      | ok vm' =>
        simp only [isInit] at within
        have isTx : vm'.settings.tx = tx' := by rw [settings_of_init isInit]
        have before := within_of_run collisionFree within
        have start := ih before reusable'
        rw [← isTx] at start
        exact sound_reusing (run_agrees collisionFree start start within).2 reusable

end CollisionFree

end Histories

/--
A verdict is the one of a new engine with empty caches, whatever earlier
executions left in the caches and whatever the pooled engine did before, if no
two of the strings that the keys of the ML-DSA-44 cache are made from collide.
-/
theorem verdict_independent (primitives : Primitives) (checks fresh : Checks)
    (vm : Engine) (scriptPubKey : ScriptPublicKey) (tx : Transaction)
    (txIdx : Int) (flags : ScriptFlags) (reused : SighashReusedValues)
    (rounds : Nat) (left : Left primitives checks) (isFresh : Fresh fresh)
    (reusable : Reusable primitives.writers tx reused) (collisionFree :
      let hashed := (initAndExecute primitives (reset vm) scriptPubKey tx txIdx
        flags (reusing checks reused) rounds).2.hashed
      ∀ first ∈ hashed, ∀ second ∈ hashed, primitives.blake2b first = primitives.blake2b second →
        first = second) :
    (initAndExecute primitives (reset vm) scriptPubKey tx txIdx flags
        (reusing checks reused) rounds).1 =
      (initAndExecute primitives zeroEngine scriptPubKey tx txIdx flags fresh rounds).1 := by
  have isReset : init (reset vm) scriptPubKey tx txIdx flags =
      init zeroEngine scriptPubKey tx txIdx flags := rfl
  rw [initAndExecute, isReset] at collisionFree ⊢
  rw [initAndExecute]
  cases isInit : init zeroEngine scriptPubKey tx txIdx flags with
  | error failure => rfl
  | ok engine =>
    simp only [isInit] at collisionFree
    have isTx : engine.settings.tx = tx := by rw [settings_of_init isInit]
    have within : Within (run primitives engine (reusing checks reused)
        rounds).2.hashed (run primitives engine (reusing checks reused) rounds).2 := fun _ => id
    have before : Within _ (reusing checks reused) := within_of_run collisionFree within
    have sound := left.sound collisionFree before reusable
    have sound' := @sound_of_fresh primitives (run primitives engine
      (reusing checks reused) rounds).2.hashed fresh isFresh tx
    rw [← isTx] at sound sound'
    exact (run_agrees collisionFree sound sound' within).1

/-- Hashes that tell strings of different lengths apart. -/
def lengthPrimitives : Primitives :=
  { acceptingPrimitives with
    blake2b := fun string => .filled (UInt8.ofNat string.length) }

/-- An ML-DSA-44 signature and a key, as two pushes. -/
def mldsa44SignatureAndKey : List UInt8 :=
  [0x4d, 0x75, 0x09] ++ List.replicate 2420 5 ++ [0x01] ++
    [0x4d, 0x20, 0x05] ++ List.replicate 1312 6

/-- `OP_CHECKSIGMLDSA44`. -/
def checkSigMLDSA44Script : ScriptPublicKey := ⟨[0xa6], 0, by decide⟩

def mldsa44Spend : Transaction :=
  spending mldsa44SignatureAndKey 0 0 (some ⟨5, checkSigMLDSA44Script, 10, false⟩)

/-- A cache for two signatures and two keys. -/
def smallCache : Checks := ⟨none, none, some ⟨∅, 2, ∅, 2⟩, {}, 0, []⟩

/-- The caches after the spend was checked once. -/
def checkedOnce : Checks :=
  (initAndExecute lengthPrimitives zeroEngine checkSigMLDSA44Script
    mldsa44Spend 0 scriptEnableMLDSA44 (reusing smallCache {}) 4).2

/-- A signature that an earlier execution cached is accepted as before. -/
theorem verdict_independent_mldsa44 :
    (initAndExecute lengthPrimitives (reset zeroEngine) checkSigMLDSA44Script
        mldsa44Spend 0 scriptEnableMLDSA44 (reusing checkedOnce {}) 4).1 =
      (initAndExecute lengthPrimitives zeroEngine checkSigMLDSA44Script
        mldsa44Spend 0 scriptEnableMLDSA44 freshChecks 4).1 := by
  have isFresh : Fresh smallCache :=
    ⟨nofun, nofun, fun _ isCache => by cases isCache; exact ⟨rfl, rfl⟩, rfl, rfl⟩
  have left : Left lengthPrimitives checkedOnce :=
    .executed (.fresh isFresh) _ _ _ _ _ (reusable_fresh _ _) _
  refine verdict_independent _ _ _ _ _ _ _ _ _ _ left
    ⟨nofun, nofun, nofun, rfl, rfl⟩ (reusable_fresh _ _) ?_
  decide +kernel

end Htnd.Txscript.Verdicts
