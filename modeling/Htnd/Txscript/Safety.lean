import Htnd.Txscript.Engines
import Htnd.Txscript.StepBounds

/-!
# The engine is safe

An engine whose input has the entry of the output it spends, and that was made
without the disabled opcodes, ends with a verdict or an error.  In every run the
stacks, the size of their elements and the counted operations of each script
stay within their limits.
-/

namespace Htnd.Txscript.Safety

open Lib.Calls Utxo.Entry Consensus.Transactions Script Stacks Handlers List
open Signatures Execution Bounds HandlerBounds SignatureBounds Parsing StepCases
open StepBounds Runs Engines

/-! ## Operations of each script -/

/-- The counted opcodes of a script that were executed. -/
def countedOps (trace : Trace) (script : Nat) : Nat :=
  trace.countP fun executed => executed.1 == script && isCounted executed.2

theorem countedOps_executed (trace : Trace) (script : Nat) (op : ParsedOpcode) :
    countedOps (trace ++ [(script, op)]) script = countedOps trace script + opCount op := by
  rw [countedOps, countP_append, countP_singleton, beq_self_eq_true]
  rfl

theorem countedOps_other (trace : Trace) {script other : Nat}
    (op : ParsedOpcode) (isIn : other ≠ script) :
    countedOps (trace ++ [(script, op)]) other = countedOps trace other := by
  rw [countedOps, countP_append, countP_singleton, beq_eq_false_iff_ne.mpr isIn.symm]
  rfl

/-! ## The invariant -/

structure Safe (trace : Trace) (vm : Vm) : Prop where
  staged : Staged vm
  machine : SessionBounded (countedOps trace vm.program.scriptIdx) maxStackSize vm.session
  counted : ∀ script, countedOps trace script ≤ maxOpsPerScript
  ahead : ∀ script, vm.program.scriptIdx < script → countedOps trace script = 0
  saved : ∀ so ∈ vm.program.savedFirstStack, Fits so

variable {session : Session} {vm' : Vm} {ends : Bool}

section Steps

variable {prims : Primitives} {settings : Settings} {trace : Trace} {vm : Vm} {op : ParsedOpcode}

theorem Safe.goesOn (safe : Safe trace vm) (staged : Staged vm') (bound : SessionBounded
    (countedOps trace vm.program.scriptIdx + opCount op) (maxStackSize + 3) session)
    (small : stackSize session.machine ≤ maxStackSize)
    (follows : GoesOn ⟨advance vm.program, session⟩ ends vm') :
    Safe (trace ++ [(vm.program.scriptIdx, op)]) vm' := by
  have counted : ∀ script, countedOps (trace ++ [(vm.program.scriptIdx, op)]) script ≤
        maxOpsPerScript := by
    intro script
    by_cases isIn : script = vm.program.scriptIdx
    · rw [isIn, countedOps_executed]
      exact le_trans bound.base_le bound.numOps_le
    · rw [countedOps_other trace op isIn]
      exact safe.counted script
  have ahead : ∀ script, vm.program.scriptIdx < script →
      countedOps (trace ++ [(vm.program.scriptIdx, op)]) script = 0 := by
    intro script isAhead
    rw [countedOps_other trace op (Nat.ne_of_gt isAhead)]
    exact safe.ahead script isAhead
  cases follows with
  | within =>
    refine ⟨staged, ?_, counted, ahead, safe.saved⟩
    rw [show (advance vm.program).scriptIdx = vm.program.scriptIdx from rfl, countedOps_executed]
    exact { bound with depth := small }
  | @leaves program dstack balanced left =>
    have fits : (∀ so ∈ dstack, Fits so) ∧ ∀ so ∈ program.savedFirstStack, Fits so := by
      cases left with
      | saves => exact ⟨bound.data, bound.data⟩
      | redeems _ _ isSaved =>
        refine ⟨fun so mem => safe.saved so ?_, safe.saved⟩
        rw [show vm.program.savedFirstStack = _ from isSaved]
        exact .tail _ mem
      | goesOn => exact ⟨bound.data, safe.saved⟩
    have isNext : vm.program.scriptIdx < program.scriptIdx := by
      cases left <;> exact Nat.lt_succ_self _
    have isAhead := isNext.trans_le (scriptIdx_le_skipEmpty program)
    refine ⟨staged, ?_, counted, ?_, ?_⟩
    · rw [ahead _ isAhead]
      exact ⟨fits.1, nofun, staged.small, Nat.zero_le _, Nat.zero_le _⟩
    · exact fun script beyond => ahead script (lt_trans isAhead beyond)
    · rw [skipEmpty_savedFirstStack]
      exact fits.2

end Steps

/-! ## The opcodes that remain -/

/-- The opcodes of the scripts from an index on. -/
def opcodesFrom (scripts : List (List ParsedOpcode)) (script : Nat) : Nat :=
  ((scripts.drop script).map List.length).sum

variable {scripts : List (List ParsedOpcode)} {idx : Nat}

theorem opcodesFrom_eq {script : List ParsedOpcode} (isScript : scripts[idx]? = some script) :
    opcodesFrom scripts idx = script.length + opcodesFrom scripts (idx + 1) := by
  rcases List.getElem?_eq_some_iff.mp isScript with ⟨inRange, rfl⟩
  rw [opcodesFrom, drop_eq_getElem_cons inRange]
  rfl

theorem opcodesFrom_succ_le (scripts : List (List ParsedOpcode)) (idx : Nat) :
    opcodesFrom scripts (idx + 1) ≤ opcodesFrom scripts idx := by
  cases isScript : scripts[idx]? with
  | some script =>
    rw [opcodesFrom_eq isScript]
    exact Nat.le_add_left _ _
  | none =>
    rw [opcodesFrom, drop_eq_nil_of_le (Nat.le_succ_of_le (List.getElem?_eq_none_iff.mp isScript))]
    exact Nat.zero_le _

theorem opcodesFrom_append (pops : List ParsedOpcode) (inRange : idx ≤ scripts.length) :
    opcodesFrom (scripts ++ [pops]) idx = opcodesFrom scripts idx + pops.length := by
  rw [opcodesFrom, drop_append_of_le_length inRange, map_append, sum_append]
  rfl

/-- The opcodes of a redeem script that is still to come. -/
def redeemOpcodes (program : Program) : Nat :=
  if program.isP2SH = true ∧ program.scriptIdx ≤ 1 then maxElementSize else 0

variable {program : Program}

theorem redeemOpcodes_early (isP2SH : program.isP2SH = true) (isEarly : program.scriptIdx ≤ 1) :
    redeemOpcodes program = maxElementSize :=
  if_pos ⟨isP2SH, isEarly⟩

theorem redeemOpcodes_other (isIn : ¬ (program.isP2SH = true ∧ program.scriptIdx ≤ 1)) :
    redeemOpcodes program = 0 :=
  if_neg isIn

/-- No more steps than this remain. -/
def remaining (program : Program) : Nat :=
  opcodesFrom program.scripts program.scriptIdx - program.scriptOff + redeemOpcodes program

theorem remaining_skipEmpty (atStart : program.scriptOff = 0) :
    remaining (skipEmpty program) ≤ remaining program := by
  rcases skipEmpty_cases program with isSame | isNext
  · rw [isSame]
  rw [isNext, remaining, remaining, atStart]
  have fewer := opcodesFrom_succ_le program.scripts program.scriptIdx
  have redeem : redeemOpcodes (nextScript program) ≤ redeemOpcodes program := by
    rw [redeemOpcodes, redeemOpcodes]
    split_ifs with isEarly isEarlier
    · exact le_rfl
    · exact absurd ⟨isEarly.1, Nat.le_of_succ_le isEarly.2⟩ isEarlier
    · exact Nat.zero_le _
    · exact le_rfl
  change opcodesFrom program.scripts (program.scriptIdx + 1) - program.scriptOff + _ ≤ _
  omega

theorem remaining_leaves {program program' : Program} {dstack dstack' : Stack} {op : ParsedOpcode}
    (isOp : opcodeAt program = some op) (left : Leaves (advance program) dstack program' dstack')
    (saved : ∀ so ∈ program.savedFirstStack, Fits so) : program'.scriptOff = 0 ∧
    remaining program' < remaining program := by
  rcases opcodeAt_some isOp with ⟨_, isScript, atOff⟩
  have inScript := (List.getElem?_eq_some_iff.mp atOff).1
  have inScripts := (List.getElem?_eq_some_iff.mp isScript).1
  have isSum := opcodesFrom_eq isScript
  cases left with
  | saves first isP2SH =>
    refine ⟨rfl, ?_⟩
    change program.scriptIdx = 0 at first
    have before : redeemOpcodes program = maxElementSize := redeemOpcodes_early isP2SH (by omega)
    have after : redeemOpcodes (saving (advance program) dstack) =
        maxElementSize := by
      refine redeemOpcodes_early isP2SH ?_
      change program.scriptIdx + 1 ≤ 1
      omega
    rw [remaining, remaining]
    change opcodesFrom program.scripts (program.scriptIdx + 1) - 0 + _ < _
    omega
  | @redeems redeem _ pops second isP2SH isSaved isParsed =>
    refine ⟨rfl, ?_⟩
    change program.scriptIdx = 1 at second
    change program.savedFirstStack = redeem :: dstack' at isSaved
    have redeemLength : redeem.length ≤ maxElementSize := by
      refine length_le_of_fits (saved redeem ?_)
      rw [isSaved]
      exact .head _
    have popsLength := length_le_of_parsed isParsed
    have before : redeemOpcodes program = maxElementSize := redeemOpcodes_early isP2SH (by omega)
    have after : redeemOpcodes (redeeming (advance program) pops) = 0 := by
      refine redeemOpcodes_other fun isEarly => absurd isEarly.2 ?_
      change ¬ program.scriptIdx + 1 ≤ 1
      omega
    rw [remaining, remaining, after]
    change opcodesFrom (program.scripts ++ [pops]) (program.scriptIdx + 1) - 0 + 0 < _
    have inRange : program.scriptIdx + 1 ≤ program.scripts.length := inScripts
    rw [opcodesFrom_append pops inRange]
    omega
  | goesOn isIn =>
    refine ⟨rfl, ?_⟩
    have after : redeemOpcodes (goingOn (advance program)) = 0 := redeemOpcodes_other fun isEarly =>
      isIn ⟨Nat.le_of_succ_le isEarly.2, isEarly.1⟩
    rw [remaining, remaining, after]
    change opcodesFrom program.scripts (program.scriptIdx + 1) - 0 + 0 < _
    omega

theorem remaining_goesOn {vm : Vm} {op : ParsedOpcode}
    (isOp : opcodeAt vm.program = some op) (saved : ∀ so ∈ vm.program.savedFirstStack, Fits so)
    (follows : GoesOn ⟨advance vm.program, session⟩ ends vm') :
    remaining vm'.program < remaining vm.program := by
  cases follows with
  | within =>
    rcases opcodeAt_some isOp with ⟨_, isScript, atOff⟩
    have inScript := (List.getElem?_eq_some_iff.mp atOff).1
    have isSum := opcodesFrom_eq isScript
    change opcodesFrom vm.program.scripts vm.program.scriptIdx - (vm.program.scriptOff + 1) +
      redeemOpcodes vm.program < opcodesFrom vm.program.scripts vm.program.scriptIdx -
      vm.program.scriptOff + redeemOpcodes vm.program
    omega
  | @leaves program dstack balanced left =>
    have fewer := remaining_leaves isOp left saved
    exact lt_of_le_of_lt (remaining_skipEmpty fewer.1) fewer.2

/-! ## Runs -/

def VmBounded (room : Nat) (vm : Vm) : Prop := SessionBounded 0 room vm.session

theorem onStack_grows {α : Type} {call : StackCall α} {growth : Nat} {value : α → Prop}
    (grows : Grows Sized growth call value) : Grows VmBounded growth (onStack call) value := by
  intro room fits
  have inner : Grows (SessionBounded 0) growth (onMachine (onData call))
      value :=
    machine_grows (data_grows grows)
  rw [onStack, onSession]
  refine .zoom fun _ bound => ?_
  exact (inner room fits).of_state bound

section Runs

variable {prims : Primitives} {settings : Settings}
  (noDisabled : settings.flags &&& scriptEnableDisabledOpcodes = 0) (spends : HasEntry settings)

include noDisabled spends

theorem Safe.step_yields {trace : Trace} {vm : Vm} {op : ParsedOpcode} (safe : Safe trace vm)
    (isOp : opcodeAt vm.program = some op) : Yields (fun before => before = vm)
    (step prims settings) (fun _ vm' => Safe (trace ++ [(vm.program.scriptIdx, op)]) vm' ∧
    remaining vm'.program < remaining vm.program) (fun fails _ => IsError fails) := by
  refine safe.staged.step_yields isOp ((executeOpcode_yields noDisabled spends (by decide)).of_state
    safe.machine) ?_ ?_
  · intro session vm' bound small staged follows
    exact ⟨safe.goesOn staged bound small follows, remaining_goesOn isOp safe.saved follows⟩
  · intro session fails vm' bound _ isError
    refine isError (Int.le_trans (Int.ofNat_le.mpr bound.depth) ?_)
    decide

theorem Safe.of_reaches {start vm : Vm} {trace : Trace} (safe : Safe [] start)
    (meets : Reaches prims settings start trace vm) : Safe trace vm := by
  refine meets.invariant safe fun trace vm _ safe isOp => ?_
  exact (safe.step_yields noDisabled spends isOp).imp (fun _ => id)
    (fun _ _ => And.left) fun _ _ _ => trivial

omit noDisabled spends in
/-- The last check takes the result off the stack. -/
theorem checkErrorCondition_grows : Grows VmBounded 0 (checkErrorCondition true) fun _ => True := by
  refine .get fun vm => ?_
  have rest : Grows VmBounded 0 (do
      let v ← onStack popBool
      if !v then scriptError .evalFalse) fun _ => True := by
    refine (onStack_grows popBool_grows).andThen fun v _ => ?_
    exact guard_grows.imp fun _ _ => trivial
  dsimp only
  by_cases unfinished : vm.program.scriptIdx < vm.program.scripts.length
  · rw [if_pos unfinished]
    exact .throw (isError_script _)
  rw [if_neg unfinished, if_pos rfl]
  refine (onStack_grows depth_grows).andThen fun depth _ => ?_
  by_cases isUnclean : 1 < depth
  · rw [if_pos isUnclean]
    exact .throw (isError_script _)
  rw [if_neg isUnclean]
  by_cases empty : depth < 1
  · rw [if_pos empty]
    exact .throw (isError_script _)
  rw [if_neg empty]
  exact rest

theorem execute_yields (rounds : Nat) : Yields (fun vm => Safe [] vm ∧
    remaining vm.program < rounds) (execute prims settings rounds) (fun _ _ => True)
    (fun fails _ => IsError fails) := by
  rw [execute]
  by_cases isFuture : maxScriptPublicKeyVersion < settings.scriptVersion
  · rw [if_pos isFuture]
    exact fun _ _ => isError_script _
  rw [if_neg isFuture]
  have loop : Yields (fun vm => (∃ trace, Safe trace vm) ∧
      remaining vm.program < rounds) (steps prims settings rounds)
      (fun _ vm => ∃ trace, Safe trace vm) (fun fails _ => IsError fails) := by
    refine steps_yields (fun vm ⟨trace, safe⟩ => ?_) rounds
    cases isOp : opcodeAt vm.program with
    | none =>
      rintro _ rfl
      rw [step_halts isOp]
      exact isError_script _
    | some op =>
      exact (safe.step_yields noDisabled spends isOp).imp (fun _ => id)
        (fun _ _ after => ⟨⟨_, after.1⟩, after.2⟩) fun _ _ => id
  refine .bind (loop.imp (fun vm before => ⟨⟨[], before.1⟩, before.2⟩)
    (fun _ _ => id) fun _ _ => id) fun _ => ?_
  refine (checkErrorCondition_grows maxStackSize (by decide)).imp ?_
    (fun _ _ _ => trivial) fun _ _ => id
  rintro vm ⟨trace, safe⟩
  exact { safe.machine with base_le := Nat.zero_le _ }

end Runs

/-! ## Engines -/

section Engines

variable {scriptPubKey : ScriptPublicKey} {tx : Transaction} {txIdx : Int}
  (opens : Opens scriptPubKey tx txIdx) (flags : ScriptFlags)

theorem safe_of_opens (checks : Checks) : Safe [] ((opens.engine flags).start checks) where
  staged := opens.staged flags checks
  machine := ⟨nofun, nofun, Nat.zero_le _, Nat.zero_le _, Nat.zero_le _⟩
  counted _ := Nat.zero_le _
  ahead _ _ := rfl
  saved := nofun

def maxSteps : Nat := 2 * maxScriptSize + maxElementSize

theorem remaining_le_of_opens : remaining (opens.engine flags).program ≤ maxSteps := by
  have sigShort := length_le_of_parseScript opens.sigParsed
  have pubKeyShort := length_le_of_parseScript opens.pubKeyParsed
  have fewer : opcodesFrom [opens.sigPops, opens.pubKeyPops]
      (opens.engine flags).program.scriptIdx ≤ 2 * maxScriptSize := by
    have all : opcodesFrom [opens.sigPops, opens.pubKeyPops] 0 =
        opens.sigPops.length + (opens.pubKeyPops.length + 0) := rfl
    have second : opcodesFrom [opens.sigPops, opens.pubKeyPops] 1 =
        opens.pubKeyPops.length + 0 := rfl
    change opcodesFrom _ (if _ then 1 else 0) ≤ _
    split_ifs
    · omega
    · omega
  have redeem : redeemOpcodes (opens.engine flags).program ≤
      maxElementSize := by
    rw [redeemOpcodes]
    split_ifs
    · exact le_rfl
    · exact Nat.zero_le _
  exact Nat.add_le_add (le_trans (Nat.sub_le _ _) fewer) redeem

end Engines

/-! ## The engine -/

/--
Making an engine and executing it ends with a verdict or an error, whatever the
scripts, the libraries, the caches and the reused hashes; and all along the run
the stacks, their elements and the operations of each script are limited.
-/
theorem engine_safe (primitives : Primitives) (scriptPubKey : ScriptPublicKey)
    (tx : Transaction) (txIdx : Int) (flags : ScriptFlags)
    (noDisabled : flags &&& scriptEnableDisabledOpcodes = 0)
    (hasEntry : ∀ input, 0 ≤ txIdx → tx.inputs[txIdx.toNat]? = some input →
      input.utxoEntry.isSome) : match newEngine scriptPubKey tx txIdx flags with
    | .error failure => IsError failure
    | .ok vm => ∀ checks, (∀ rounds, maxSteps < rounds → ∀ failure,
        (run primitives vm checks rounds).1 = .error failure → IsError failure) ∧ ∀ trace vm',
        Reaches primitives vm.settings (vm.start checks) trace vm' →
        vm'.session.machine.dstack.length + vm'.session.machine.astack.length ≤ maxStackSize ∧
        (∀ so ∈ vm'.session.machine.dstack, Fits so) ∧
        (∀ so ∈ vm'.session.machine.astack, Fits so) ∧ ∀ script,
        countedOps trace script ≤ maxOpsPerScript := by
  rcases newEngine_result scriptPubKey tx txIdx flags with ⟨opens, isOk⟩ | ⟨code, fails⟩
  swap
  · rw [fails]
    exact isError_script code
  rw [isOk]
  intro checks
  have spends : HasEntry (opens.engine flags).settings := by
    obtain ⟨entry, isEntry⟩ := Option.isSome_iff_exists.mp
      (hasEntry opens.input opens.nonneg opens.isInput)
    exact ⟨opens.input, entry, opens.isInput, isEntry⟩
  have start := safe_of_opens opens flags checks
  refine ⟨fun rounds enough failure fails => ?_, fun trace vm' reached => ?_⟩
  · have few := remaining_le_of_opens opens flags
    have executed := @execute_yields primitives _ noDisabled spends rounds _
      ⟨start, lt_of_le_of_lt few enough⟩
    rw [run] at fails
    generalize outcome (execute primitives (opens.engine flags).settings
      rounds) ((opens.engine flags).start checks) = result at executed fails
    rcases result with ⟨_ | _, vm'⟩
    · cases fails
      exact executed
    · cases fails
  · have safe := start.of_reaches noDisabled spends reached
    exact ⟨safe.machine.depth, safe.machine.data, safe.machine.alt, safe.counted⟩

/-- A spend of a coin by one signature is accepted in every run. -/
theorem engine_safe_checkSig : ∃ vm, newEngine checkSigScript (spending signatureAndKey 0 0
        (some ⟨5, checkSigScript, 10, false⟩)) 0 0 = .ok vm ∧
      (run acceptingPrimitives vm freshChecks (maxSteps + 1)).1 ≠ .error .panicked := by
  have safe := engine_safe acceptingPrimitives checkSigScript
    (spending signatureAndKey 0 0 (some ⟨5, checkSigScript, 10, false⟩)) 0 0 (by decide) (by
      intro _ _ isInput
      cases isInput
      rfl)
  rcases newEngine_result checkSigScript (spending signatureAndKey 0 0
    (some ⟨5, checkSigScript, 10, false⟩)) 0 0 with ⟨_, isOk⟩ | ⟨_, fails⟩
  · rw [isOk] at safe
    refine ⟨_, isOk, fun panics => ?_⟩
    exact ((safe freshChecks).1 _ (Nat.lt_succ_self _) _ panics).1 rfl
  have starts : (newEngine checkSigScript (spending signatureAndKey 0 0
      (some ⟨5, checkSigScript, 10, false⟩)) 0 0).toOption.isSome = true := by
    decide +kernel
  rw [fails] at starts
  cases starts

/-- Without the entry of the spent output, checking a signature panics. -/
theorem missing_entry_panics : (initAndExecute acceptingPrimitives zeroEngine checkSigScript
      (spending signatureAndKey 0 0 none) 0 0 freshChecks 3).1 = .error .panicked := by
  decide +kernel

end Htnd.Txscript.Safety
