import Htnd.Txscript.Engines
import Htnd.Txscript.Verifications

/-!
# The count of signature operations bounds the work

What an engine has verified and what its scripts may still verify never add up
to more than the count that `GetPreciseSigOpCountWithFlags` makes of the two
scripts without running them.  For the redeem script of a pay-to-script-hash
spend this rests on the last opcode of the first script: what it pushes is on
top of the stack that is saved.
-/

namespace Htnd.Txscript.SigOpCounts

open Lib.Calls Utxo.Entry Consensus.Transactions Script Stacks Handlers List
open Signatures Execution Parsing StepCases Runs Engines Verifications

/-! ## Pushes -/

/-- What an opcode up to `OP_16` pushes. -/
def pushed (pop : ParsedOpcode) : Element :=
  match pop.opcode.opfunc with
  | .opcodePushData => pop.data
  | .opcode1Negate => [0x81]
  | .opcodeN => [pop.value - (op1 - 1)]
  | _ => []

def pushFuncs : List OpFunc :=
  [.opcodeFalse, .opcodePushData, .opcode1Negate, .opcodeReserved, .opcodeN]

section Pushes

variable {prims : Primitives} {settings : Settings} {pop : ParsedOpcode}

theorem opfunc_of_push (isPush : pop.value ≤ op16) :
    pop.opcode.opfunc ∈ pushFuncs ∧ pop.isConditional = false := by
  have table : ∀ instr : UInt8, (opcodeArray instr).value ≤ op16 →
      (opcodeArray instr).opfunc ∈ pushFuncs ∧ ParsedOpcode.isConditional ⟨instr, []⟩ = false :=
    forall_byte (by decide +kernel)
  exact table pop.instr isPush

theorem bytesOf_opcodeN (number : pop.opcode.opfunc = .opcodeN) :
    bytesOf ((pop.value - (op1 - 1)).toNat : Int) = .ok [pop.value - (op1 - 1)] := by
  have table : ∀ instr : UInt8, (opcodeArray instr).opfunc = .opcodeN →
      (bytesOf (((opcodeArray instr).value - (op1 - 1)).toNat : Int)).toOption =
      some [(opcodeArray instr).value - (op1 - 1)] := forall_byte (by decide +kernel)
  have isBytes := table pop.instr number
  change (bytesOf ((pop.value - (op1 - 1)).toNat : Int)).toOption = _ at isBytes
  cases result : bytesOf ((pop.value - (op1 - 1)).toNat : Int) with
  | error fails =>
    rw [result] at isBytes
    cases isBytes
  | ok bytes =>
    rw [result] at isBytes
    cases isBytes
    rfl

theorem callOpfunc_pushes (isPush : pop.value ≤ op16) (vm : Session) :
    Yields (fun before => before = vm) (callOpfunc prims settings pop)
    (fun _ after => after.machine.condStack = vm.machine.condStack ∧ after.machine.dstack =
    pushed pop :: vm.machine.dstack) (fun _ _ => True) := by
  rintro vm rfl
  have isFunc := (opfunc_of_push isPush).1
  simp only [pushFuncs, mem_cons, not_mem_nil, or_false] at isFunc
  rw [callOpfunc]
  rcases isFunc with isFunc | isFunc | isFunc | isFunc | isFunc
  · rw [isFunc, pushed, isFunc]
    exact ⟨rfl, rfl⟩
  · rw [isFunc, pushed, isFunc]
    exact ⟨rfl, rfl⟩
  · rw [isFunc, pushed, isFunc]
    exact ⟨rfl, rfl⟩
  · rw [isFunc]
    trivial
  have isBytes := bytesOf_opcodeN isFunc
  rw [isFunc, pushed, isFunc]
  simp only [onMachine, onData, opcodeN, pushInt, isBytes, outcome_zoom,
    compute_ok, pushByteArray, outcome_modify]
  exact ⟨trivial, trivial⟩

theorem executeOpcode_pushes (isPush : pop.value ≤ op16) (vm : Session) :
    Yields (fun before => before = vm) (executeOpcode prims settings pop)
    (fun _ after => after.machine.condStack = vm.machine.condStack ∧
    (vm.machine.isBranchExecuting = true → after.machine.dstack.head? = some (pushed pop)))
    (fun _ _ => True) := by
  refine execute_cases ?_ ?_ fun _ _ => trivial
  · intro numOps notExecuting _
    refine ⟨rfl, fun active => ?_⟩
    rw [notExecuting] at active
    cases active
  · intro numOps _ _
    refine (callOpfunc_pushes isPush _).imp (fun _ => id) ?_ fun _ _ => id
    rintro _ after ⟨sameCond, isTop⟩
    exact ⟨sameCond, fun _ => congrArg List.head? isTop⟩

end Pushes

/-! ## What the scripts may still verify -/

section Left

variable (flags : ScriptFlags)

def total (scripts : List (List ParsedOpcode)) : Nat :=
  (scripts.map fun pops => getSigOpCount pops true flags).sum

theorem total_append (scripts scripts' : List (List ParsedOpcode)) :
    total flags (scripts ++ scripts') = total flags scripts + total flags scripts' := by
  rw [total, map_append, sum_append, total, total]

theorem total_drop_le (count : Nat) (scripts : List (List ParsedOpcode)) :
    total flags (scripts.drop count) ≤ total flags scripts := by
  have split := congrArg (total flags) (take_append_drop count scripts)
  rw [total_append] at split
  omega

/-- The opcode of the current script before the one to execute. -/
def previous (program : Program) : Option ParsedOpcode :=
  match program.scriptOff with
  | 0 => none
  | off + 1 => program.scripts[program.scriptIdx]?.bind fun script => script[off]?

/-- The signature operations of the opcodes that are not executed yet. -/
def sigOpsLeft (program : Program) : Nat :=
  match program.scripts.drop program.scriptIdx with
  | [] => 0
  | script :: later =>
    countSigOps flags true (previous program) (script.drop program.scriptOff) + total flags later

variable {flags} {program : Program}

theorem sigOps_of_some {script : List ParsedOpcode}
    (isScript : program.scripts[program.scriptIdx]? = some script) : sigOpsLeft flags program =
    countSigOps flags true (previous program) (script.drop program.scriptOff) + total flags
    (program.scripts.drop (program.scriptIdx + 1)) := by
  obtain ⟨inRange, rfl⟩ := List.getElem?_eq_some_iff.mp isScript
  rw [sigOpsLeft, drop_eq_getElem_cons inRange]

theorem sigOps_of_start (isStart : program.scriptOff = 0) : sigOpsLeft flags program =
    total flags (program.scripts.drop program.scriptIdx) := by
  cases isScript : program.scripts[program.scriptIdx]? with
  | none =>
    rw [sigOpsLeft, drop_eq_nil_of_le (List.getElem?_eq_none_iff.mp isScript)]
    rfl
  | some script =>
    obtain ⟨inRange, isItem⟩ := List.getElem?_eq_some_iff.mp isScript
    rw [sigOps_of_some isScript, previous, isStart, drop_eq_getElem_cons inRange, isItem]
    rfl

theorem sigOpsLeft_advance {op : ParsedOpcode} (isOp : opcodeAt program = some op) :
    sigOpsLeft flags program = sigOpsOf flags true (previous program) op + sigOpsLeft flags
    (advance program) := by
  rcases opcodeAt_some isOp with ⟨_, isScript, atOff⟩
  obtain ⟨inRange, isItem⟩ := List.getElem?_eq_some_iff.mp atOff
  have isNext : previous (advance program) = some op := isOp
  have after : sigOpsLeft flags (advance program) = _ := sigOps_of_some isScript
  rw [sigOps_of_some isScript, after, isNext,
    drop_eq_getElem_cons inRange, isItem, countSigOps, add_assoc]
  rfl

/-- After the last opcode of a script those of the others are left. -/
theorem sigOpsLeft_ends {op : ParsedOpcode} (isOp : opcodeAt program = some op)
    (ends : scriptEnds program = true) : sigOpsLeft flags (advance program) =
    total flags (program.scripts.drop (program.scriptIdx + 1)) := by
  rcases opcodeAt_some isOp with ⟨_, isScript, _⟩
  have after : sigOpsLeft flags (advance program) = _ := sigOps_of_some isScript
  rw [scriptEnds, Option.isNone_iff_eq_none, opcodeAt, advance, isScript,
    Option.bind_some, List.getElem?_eq_none_iff] at ends
  rw [after, show (advance program).scriptOff = program.scriptOff + 1 from rfl,
    drop_eq_nil_of_le ends, countSigOps, zero_add]
  rfl

theorem sigOpsLeft_skipEmpty_le (isStart : program.scriptOff = 0) :
    sigOpsLeft flags (skipEmpty program) ≤ sigOpsLeft flags program := by
  rcases skipEmpty_cases program with isSame | isNext
  · rw [isSame]
  rw [isNext, sigOps_of_start isStart, sigOps_of_start]
  · change total flags (program.scripts.drop (program.scriptIdx + 1)) ≤ _
    rw [← drop_drop]
    exact total_drop_le flags 1 _
  · exact isStart

end Left

/-! ## Steps -/

section Steps

variable (flags : ScriptFlags) (limit : Nat)

/-- What a redeem script may verify is within the limit too. -/
def Affords (vm : Vm) (script : Element) : Prop :=
  ∀ pops, parsed script = .ok pops → vm.session.checks.verified + sigOpsLeft flags vm.program +
    getSigOpCount pops true flags ≤ limit

/-- The last opcode of a script pushes a redeem script within the limit. -/
structure LeavesRedeemScript (vm : Vm) (first : List ParsedOpcode) : Prop where
  pushOnly : isPushOnly first = true
  affords : ∀ last, first.getLast? = some last → Affords flags limit vm (pushed last)

variable {flags limit} in
theorem LeavesRedeemScript.value_le {vm : Vm} {first second : List ParsedOpcode}
    {op : ParsedOpcode} (redeems : LeavesRedeemScript flags limit vm first)
    (isScripts : vm.program.scripts = [first, second]) (isFirst : vm.program.scriptIdx = 0)
    (isOp : opcodeAt vm.program = some op) : op.value ≤ op16 := by
  rw [opcodeAt, isScripts, isFirst] at isOp
  have member : op ∈ first := mem_of_getElem? isOp
  have pushOnly := redeems.pushOnly
  rw [isPushOnly, all_eq_true] at pushOnly
  exact of_decide_eq_true (pushOnly op member)

/-- An engine whose verifications stay within a limit. -/
structure Counted (vm : Vm) : Prop where
  within : vm.session.checks.verified + sigOpsLeft flags vm.program ≤ limit
  onTop : ∀ last, previous vm.program = some last → last.value ≤ op16 →
    vm.session.machine.isBranchExecuting = true →
    vm.session.machine.dstack.head? = some (pushed last)
  first : vm.program.isP2SH = true → vm.program.scriptIdx = 0 → vm.session.machine.condStack = [] ∧
    ∃ first second, vm.program.scripts = [first, second] ∧ LeavesRedeemScript flags limit vm first
  second : vm.program.isP2SH = true → vm.program.scriptIdx = 1 →
    ∀ script rest, vm.program.savedFirstStack = script :: rest → Affords flags limit vm script

variable {flags limit} {vm vm' : Vm}

theorem Affords.mono {script : Element} (affords : Affords flags limit vm script)
    (less : vm'.session.checks.verified + sigOpsLeft flags vm'.program ≤
    vm.session.checks.verified + sigOpsLeft flags vm.program) : Affords flags limit vm' script :=
  fun pops isParsed => le_trans (Nat.add_le_add_right less _) (affords pops isParsed)

/-- At the start of a script that is not the first one. -/
theorem counted_of_start {program : Program} {dstack : Stack} {checks : Checks}
    (isStart : program.scriptOff = 0) (isPast : 1 ≤ program.scriptIdx)
    (within : checks.verified + sigOpsLeft flags program ≤ limit)
    (second : program.isP2SH = true → program.scriptIdx = 1 → ∀ script rest,
    program.savedFirstStack = script :: rest →
    Affords flags limit ⟨program, restarted dstack, checks⟩ script) :
    Counted flags limit ⟨skipEmpty program, restarted dstack, checks⟩ := by
  have less : sigOpsLeft flags (skipEmpty program) ≤ _ := sigOpsLeft_skipEmpty_le isStart
  have stillStarts : (skipEmpty program).scriptOff = 0 := by
    rcases skipEmpty_cases program with isSame | isNext
    · rw [isSame, isStart]
    · rw [isNext]
      exact isStart
  refine ⟨?_, ?_, ?_, ?_⟩
  · dsimp only
    omega
  · intro _ last
    rw [previous, stillStarts] at last
    cases last
  · intro _ first
    have isIdx := scriptIdx_le_skipEmpty program
    dsimp only at first
    omega
  · intro isP2SH isSecond script rest isSaved
    rcases skipEmpty_cases program with isSame | isNext
    · rw [isSame] at isP2SH isSecond isSaved ⊢
      exact second isP2SH isSecond script rest isSaved
    · rw [isNext] at isSecond
      change program.scriptIdx + 1 = 1 at isSecond
      omega

variable (flags) in
/-- What an opcode leaves behind for the next one. -/
structure Executed (vm : Vm) (op : ParsedOpcode) (session : Session) : Prop where
  verified : session.checks.verified ≤ vm.session.checks.verified +
    sigOpsOf flags true (previous vm.program) op
  pushes : op.value ≤ op16 → session.machine.condStack = vm.session.machine.condStack ∧
    (vm.session.machine.isBranchExecuting = true → session.machine.dstack.head? = some (pushed op))

theorem makeScriptNum_opcodeN {pop : ParsedOpcode} (isSmall : op1 ≤ pop.value)
    (last : pop.value ≤ op16) : makeScriptNum (pushed pop) defaultScriptNumLen =
    .ok (asSmallInt pop : Int) := by
  have table : ∀ instr : UInt8, op1 ≤ (opcodeArray instr).value → (opcodeArray instr).value ≤ op16 →
      (opcodeArray instr).opfunc = .opcodeN ∧ (makeScriptNum [(opcodeArray instr).value - (op1 - 1)]
        defaultScriptNumLen).toOption = some (asSmallInt ⟨instr, []⟩ : Int) :=
    forall_byte (by decide +kernel)
  obtain ⟨isFunc, number⟩ := table pop.instr isSmall last
  have isPushed : pushed pop = [(opcodeArray pop.instr).value - (op1 - 1)] := by
    rw [pushed, show pop.opcode.opfunc = .opcodeN from isFunc]
    rfl
  rw [isPushed]
  cases result : makeScriptNum [(opcodeArray pop.instr).value - (op1 - 1)] defaultScriptNumLen with
  | error fails =>
    rw [result] at number
    cases number
  | ok n =>
    rw [result] at number
    cases number
    rfl

theorem Counted.numberOnTop (counted : Counted flags limit vm)
    (active : vm.session.machine.isBranchExecuting = true) :
    NumberOnTop (previous vm.program) vm.session.machine := by
  intro last isLast isSmall isPush
  refine .inr fun _ _ isStack n number => ?_
  have isTop := counted.onTop last isLast isPush active
  rw [isStack] at isTop
  cases isTop
  rw [makeScriptNum_opcodeN isSmall isPush] at number
  cases number
  rw [int32Of]
  split_ifs with isLarge isLow
  · exact Int.le_of_lt isLarge
  · exact absurd isLow (Int.not_lt.mpr (Int.le_trans (by decide) (Int.natCast_nonneg _)))
  · exact Int.le_refl _

section Step

variable {prims : Primitives} {settings : Settings} {op : ParsedOpcode} {session : Session}

theorem Counted.executeOpcode (counted : Counted settings.flags limit vm)
    (isOp : opcodeAt vm.program = some op) : Yields (fun before => before = vm.session)
    (executeOpcode prims settings op) (fun _ session => Executed settings.flags vm op session)
    (fun _ session => session.checks.verified ≤ limit) := by
  have verifies := @executeOpcode_verifies prims settings op
    (previous vm.program) vm.session counted.numberOnTop
  have within := counted.within
  rw [sigOpsLeft_advance isOp] at within
  have pushes : Yields (fun before => before = vm.session)
      (Execution.executeOpcode prims settings op)
      (fun _ session => op.value ≤ op16 → session.machine.condStack = vm.session.machine.condStack ∧
      (vm.session.machine.isBranchExecuting = true → session.machine.dstack.head? =
      some (pushed op))) (fun _ _ => True) := by
    by_cases isPush : op.value ≤ op16
    · exact (executeOpcode_pushes isPush _).imp (fun _ => id)
        (fun _ _ holds _ => holds) fun _ _ => id
    · intro before _
      split
      · exact fun isPush' => absurd isPush' isPush
      · trivial
  refine (verifies.and pushes).imp (fun _ => id) ?_ ?_
  · rintro _ session ⟨verified, pushes⟩
    exact ⟨verified, pushes⟩
  · rintro _ session ⟨verified, _⟩
    omega

/-- What is left after an opcode is within the limit. -/
theorem Executed.le (executed : Executed flags vm op session)
    (isOp : opcodeAt vm.program = some op) : session.checks.verified + sigOpsLeft flags
    (advance vm.program) ≤ vm.session.checks.verified + sigOpsLeft flags vm.program := by
  have verified := executed.verified
  rw [sigOpsLeft_advance isOp]
  omega

theorem Counted.goesOn (counted : Counted flags limit vm) (isOp : opcodeAt vm.program = some op)
    (executed : Executed flags vm op session)
    (follows : GoesOn ⟨advance vm.program, session⟩ (scriptEnds vm.program) vm') :
    Counted flags limit vm' := by
  have paid := executed.le isOp
  have within := le_trans paid counted.within
  have pushes : ∀ last, previous (advance vm.program) = some last →
      last.value ≤ op16 → session.machine.isBranchExecuting = true →
      session.machine.dstack.head? = some (pushed last) := by
    intro last isLast isPush _
    have isSame : op = last := Option.some.inj (isOp.symm.trans isLast)
    subst isSame
    obtain ⟨sameCond, isTop⟩ := executed.pushes isPush
    apply isTop
    rwa [Machine.isBranchExecuting, ← sameCond]
  rcases opcodeAt_some isOp with ⟨_, isScript, _⟩
  have inScripts := (List.getElem?_eq_some_iff.mp isScript).1
  generalize isEnd : scriptEnds vm.program = ends at follows
  cases follows with
  | within =>
    refine ⟨within, pushes, ?_, ?_⟩
    · intro isP2SH isFirst
      obtain ⟨noCond, first, second, isScripts, redeems⟩ := counted.first isP2SH isFirst
      have isPush := redeems.value_le isScripts isFirst isOp
      refine ⟨(executed.pushes isPush).1.trans noCond, first, second,
        isScripts, redeems.pushOnly, fun last isLast => ?_⟩
      exact (redeems.affords last isLast).mono paid
    · intro isP2SH isSecond saved rest isSaved
      exact (counted.second isP2SH isSecond saved rest isSaved).mono paid
  | @leaves program dstack balanced left =>
    have ended : sigOpsLeft flags (advance vm.program) = _ := sigOpsLeft_ends isOp isEnd
    cases left with
    | saves isFirst isP2SH =>
      have isLeft : sigOpsLeft flags (saving (advance vm.program) session.machine.dstack) =
          sigOpsLeft flags (advance vm.program) := (sigOps_of_start rfl).trans ended.symm
      refine counted_of_start rfl (Nat.le_add_left _ _) ?_ ?_
      · rw [isLeft]
        exact within
      · intro _ _ saved rest isSaved
        obtain ⟨noCond, first, second, isScripts, redeems⟩ := counted.first isP2SH isFirst
        have isPush := redeems.value_le isScripts isFirst isOp
        have isTop := (executed.pushes isPush).2 (by
          rw [Machine.isBranchExecuting, noCond])
        have isDstack : session.machine.dstack = saved :: rest := isSaved
        have isSaved' : saved = pushed op := by
          rw [isDstack] at isTop
          exact Option.some.inj isTop
        rw [isSaved']
        refine (redeems.affords op ?_).mono ?_
        · have isScript : vm.program.scripts[vm.program.scriptIdx]? = some first := by
            rw [isScripts, show vm.program.scriptIdx = 0 from isFirst]
            rfl
          rw [opcodeAt, isScript, Option.bind_some] at isOp
          rw [scriptEnds, Option.isNone_iff_eq_none, opcodeAt, advance,
            isScript, Option.bind_some, List.getElem?_eq_none_iff] at isEnd
          change first.length ≤ vm.program.scriptOff + 1 at isEnd
          have inRange := (List.getElem?_eq_some_iff.mp isOp).1
          have isLast : first.length - 1 = vm.program.scriptOff := by omega
          rw [List.getLast?_eq_getElem?, isLast, isOp]
        · rw [isLeft]
          exact paid
    | @redeems saved _ pops isSecond isP2SH isSaved isParsed =>
      have affords : Affords flags limit ⟨advance vm.program, session⟩ saved :=
        (counted.second isP2SH isSecond saved _ isSaved).mono paid
      have isLeft : sigOpsLeft flags (redeeming (advance vm.program) pops) =
          sigOpsLeft flags (advance vm.program) + getSigOpCount pops true flags := by
        refine (sigOps_of_start rfl).trans ?_
        change total flags ((vm.program.scripts ++ [pops]).drop (vm.program.scriptIdx + 1)) = _
        rw [drop_append_of_le_length inScripts, total_append, ended]
        rfl
      refine counted_of_start rfl (Nat.le_add_left _ _) ?_ ?_
      · rw [isLeft, ← add_assoc]
        exact affords pops isParsed
      · intro _ isSecond'
        have isPast : vm.program.scriptIdx + 1 = 1 := isSecond'
        have isIdx : vm.program.scriptIdx = 1 := isSecond
        omega
    | goesOn isIn =>
      have isLeft : sigOpsLeft flags (goingOn (advance vm.program)) =
          sigOpsLeft flags (advance vm.program) := (sigOps_of_start rfl).trans ended.symm
      refine counted_of_start rfl (Nat.le_add_left _ _) ?_ ?_
      · rw [isLeft]
        exact within
      · intro isP2SH isSecond
        have isFirst : vm.program.scriptIdx + 1 = 1 := isSecond
        exact absurd ⟨by change vm.program.scriptIdx ≤ 1; omega, isP2SH⟩ isIn

theorem Counted.step (staged : Staged vm) (counted : Counted settings.flags limit vm) :
    Yields (fun before => before = vm) (step prims settings)
    (fun _ vm' => Staged vm' ∧ Counted settings.flags limit vm')
    (fun _ vm' => vm'.session.checks.verified ≤ limit) := by
  have within := counted.within
  cases isOp : opcodeAt vm.program with
  | none =>
    rintro vm rfl
    rw [step_halts isOp]
    exact Nat.le_of_add_right_le within
  | some op =>
    refine staged.step_yields isOp (counted.executeOpcode isOp) ?_ ?_
    · intro session vm' executed _ staged' follows
      exact ⟨staged', counted.goesOn isOp executed follows⟩
    · intro session _ vm' executed sameChecks _
      have paid := executed.le isOp
      rw [sameChecks]
      omega

end Step

end Steps

/-! ## Whole runs -/

section Runs

variable {prims : Primitives} {settings : Settings} {limit : Nat}

theorem onStack_checks {α : Type} {call : StackCall α} {checks : Checks} :
    Yields (fun vm => vm.session.checks = checks) (onStack call)
    (fun _ vm => vm.session.checks = checks) (fun _ vm => vm.session.checks = checks) := by
  intro vm isChecks
  rw [outcome_onStack]
  generalize outcome call vm.session.machine.dstack = result
  rcases result with ⟨_ | _, _⟩
  · exact isChecks
  · exact isChecks

theorem checkErrorCondition_checks {finalScript : Bool} {checks : Checks} :
    Yields (fun vm => vm.session.checks = checks) (checkErrorCondition finalScript)
    (fun _ vm => vm.session.checks = checks) (fun _ vm => vm.session.checks = checks) := by
  have fails : ∀ {α : Type} {code : ErrorCode}, Yields (fun vm => vm.session.checks = checks)
      (scriptError code : VmCall α) (fun _ vm => vm.session.checks = checks)
      (fun _ vm => vm.session.checks = checks) := Yields.throw fun _ => id
  have popped : Yields (fun vm => vm.session.checks = checks) (onStack popBool >>= fun v =>
        if (!v) = true then scriptError .evalFalse else Pure.pure ())
      (fun _ vm => vm.session.checks = checks)
      (fun _ vm => vm.session.checks = checks) := by
    refine onStack_checks.bind fun v => ?_
    split_ifs
    · exact fails
    · exact .pure fun _ => id
  refine .get fun vm isChecks => ?_
  have same : ∀ vm', vm' = vm → vm'.session.checks = checks := fun _ isVm => isVm ▸ isChecks
  by_cases unfinished : vm.program.scriptIdx < vm.program.scripts.length
  · rw [if_pos unfinished]
    exact fails.imp same (fun _ _ => id) fun _ _ => id
  rw [if_neg unfinished]
  cases finalScript with
  | false => exact popped.imp same (fun _ _ => id) fun _ _ => id
  | true =>
    have measured : Yields (fun vm' => vm' = vm) (onStack depth)
        (fun _ vm' => vm'.session.checks = checks) (fun _ vm' => vm'.session.checks = checks) :=
      onStack_checks.imp same (fun _ _ => id) fun _ _ => id
    refine measured.bind fun _ => ?_
    split_ifs
    · exact fails
    · exact fails
    · exact popped

theorem execute_verifies (rounds : Nat) : Yields (fun vm => Staged vm ∧
    Counted settings.flags limit vm) (execute prims settings rounds)
    (fun _ vm => vm.session.checks.verified ≤ limit)
    (fun _ vm => vm.session.checks.verified ≤ limit) := by
  have now : ∀ vm, Staged vm ∧ Counted settings.flags limit vm →
      vm.session.checks.verified ≤ limit := fun vm holds => Nat.le_of_add_right_le holds.2.within
  rw [execute]
  split_ifs
  · exact .throw now
  have stepped := @steps_keep _ prims settings _
    (fun vm holds => Counted.step holds.1 holds.2) now rounds
  refine stepped.bind fun _ => .by_state fun vm holds => ?_
  have checked := @checkErrorCondition_checks true vm.session.checks
  refine checked.imp ?_ ?_ ?_
  · rintro _ rfl
    rfl
  · intro _ vm' isChecks
    rw [isChecks]
    exact now vm holds
  · intro _ vm' isChecks
    rw [isChecks]
    exact now vm holds

end Runs

/-! ## The static count -/

section Static

variable {flags : ScriptFlags}

variable {pops : List ParsedOpcode} {pop : ParsedOpcode}

theorem parseScript_of_parsed {script : List UInt8} (isParsed : parsed script = .ok pops) :
    parseScript script = (pops, none) := by
  rw [parsed] at isParsed
  split at isParsed
  · next isScript =>
      cases isParsed
      exact isScript
  · cases isParsed

theorem parsed_of_verifySize {script : List UInt8}
    (isParsed : parseScriptAndVerifySize script = .ok pops) : parsed script = .ok pops := by
  rw [parseScriptAndVerifySize] at isParsed
  split_ifs at isParsed
  exact isParsed

theorem sigOpsOf_push {before : Option ParsedOpcode}
    (isPush : pop.value ≤ op16) : sigOpsOf flags true before pop = 0 := by
  have table : ∀ value : UInt8, value ≤ op16 → ¬ (value = 0xac ∨ value = 0xad ∨ value = 0xab) ∧
      value ≠ 0xa6 ∧ ¬ (value = 0xae ∨ value = 0xaf ∨ value = 0xa9) :=
      forall_byte (by decide +kernel)
  obtain ⟨notSig, notMLDSA44, notMultiSig⟩ := table pop.value isPush
  rw [sigOpsOf.eq_def, if_neg notSig, if_neg notMLDSA44, if_neg notMultiSig]

theorem countSigOps_pushOnly (pushOnly : isPushOnly pops = true) (before : Option ParsedOpcode) :
    countSigOps flags true before pops = 0 := by
  induction pops generalizing before with
  | nil => rfl
  | cons pop pops ih =>
    rw [isPushOnly, all_cons, Bool.and_eq_true, decide_eq_true_eq] at pushOnly
    rw [countSigOps, sigOpsOf_push pushOnly.1, ih pushOnly.2]

/-- The script of a script hash verifies nothing itself. -/
theorem getSigOpCount_scriptHash (isHash : isScriptHash pops = true) :
    getSigOpCount pops true flags = 0 := by
  rcases pops with _ | ⟨_, _ | ⟨_, _ | ⟨_, _ | _⟩⟩⟩
  all_goals simp [isScriptHash] at isHash
  obtain ⟨⟨isBlake2b, isPush⟩, isEqual⟩ := isHash
  simp [getSigOpCount, countSigOps, sigOpsOf, isBlake2b, isPush, isEqual]

theorem parsed_opcodeN (number : pop.opcode.opfunc = .opcodeN) :
    (parsed [pop.value - (op1 - 1)]).toOption = none := by
  have table : ∀ instr : UInt8, (opcodeArray instr).opfunc = .opcodeN →
      (parsed [(opcodeArray instr).value - (op1 - 1)]).toOption = none :=
    forall_byte (by decide +kernel)
  exact table pop.instr number

/-- A redeem script is counted by the data of the last push. -/
theorem getSigOpCount_pushed (isPush : pop.value ≤ op16)
    (isParsed : parsed (pushed pop) = .ok pops) :
    getSigOpCount pops true flags ≤ if pop.data.length = 0 then 0
      else getSigOpCount (parseScript pop.data).1 true flags := by
  have isFunc := (opfunc_of_push isPush).1
  simp only [pushFuncs, mem_cons, not_mem_nil, or_false] at isFunc
  rw [pushed] at isParsed
  rcases isFunc with isFunc | isFunc | isFunc | isFunc | isFunc
  · rw [isFunc] at isParsed
    cases isParsed
    exact Nat.zero_le _
  · rw [isFunc] at isParsed
    rw [parseScript_of_parsed isParsed]
    split_ifs with empty
    · rw [length_eq_zero_iff.mp empty] at isParsed
      cases isParsed
      exact le_refl 0
    · exact le_rfl
  · rw [isFunc] at isParsed
    cases isParsed
    exact Nat.zero_le _
  · rw [isFunc] at isParsed
    cases isParsed
    exact Nat.zero_le _
  · have fails := parsed_opcodeN isFunc
    rw [isFunc] at isParsed
    rw [isParsed] at fails
    cases fails

variable {script : ScriptPublicKey} {tx : Transaction} {txIdx : Int}

/-- An engine starts within the count of its scripts. -/
theorem counted_of_opens (opens : Opens script tx txIdx) (checks : Checks) :
    Counted flags (checks.verified + getPreciseSigOpCountWithFlags opens.input.signatureScript
    script flags) ((opens.engine flags).start checks) := by
  have sigParsed := parseScript_of_parsed (parsed_of_verifySize opens.sigParsed)
  have pubKeyParsed := parseScript_of_parsed (parsed_of_verifySize opens.pubKeyParsed)
  have nothing : getSigOpCount opens.sigPops true flags = 0 :=
    countSigOps_pushOnly opens.pushOnly none
  have isLeft : sigOpsLeft flags (opens.engine flags).program ≤
      getSigOpCount opens.pubKeyPops true flags := by
    rw [sigOps_of_start rfl]
    refine le_trans (total_drop_le flags _ _) (le_of_eq ?_)
    change getSigOpCount opens.sigPops true flags +
      (getSigOpCount opens.pubKeyPops true flags + 0) = _
    rw [nothing, zero_add, add_zero]
  rw [getPreciseSigOpCountWithFlags, getPreciseSigOpCountFromParsedScript, sigParsed, pubKeyParsed]
  cases isHash : isScriptHash opens.pubKeyPops with
  | false =>
    refine ⟨Nat.add_le_add_left isLeft _, nofun, ?_, ?_⟩
    · intro isP2SH
      exact absurd (isHash.symm.trans isP2SH) Bool.false_ne_true
    · intro isP2SH
      exact absurd (isHash.symm.trans isP2SH) Bool.false_ne_true
  | true =>
    rw [getSigOpCount_scriptHash isHash] at isLeft
    refine ⟨?_, nofun, ?_, ?_⟩
    · change checks.verified + sigOpsLeft flags (opens.engine flags).program ≤ _
      omega
    · intro _ _
      refine ⟨rfl, _, _, rfl, opens.pushOnly, ?_⟩
      intro last isLast pops isParsed
      have member := mem_of_getLast? isLast
      have pushOnly := opens.pushOnly
      rw [isPushOnly, all_eq_true] at pushOnly
      have isPush : last.value ≤ op16 := of_decide_eq_true (pushOnly last member)
      have redeemed : getSigOpCount pops true flags ≤ _ := getSigOpCount_pushed isPush isParsed
      change checks.verified + sigOpsLeft flags (opens.engine flags).program + _ ≤ _
      simp only [opens.pushOnly, isLast, Bool.not_true, Bool.false_eq_true, if_false]
      omega
    · nofun

/-- Whatever the verdict, so many signatures at most are verified. -/
theorem initAndExecute_verifies (prims : Primitives) (vm : Engine) (checks : Checks) (rounds : Nat)
    {input : TransactionInput} (isInput : tx.inputs[txIdx.toNat]? = some input) :
    (initAndExecute prims (reset vm) script tx txIdx flags checks rounds).2.verified ≤
    checks.verified + getPreciseSigOpCountWithFlags input.signatureScript script flags := by
  rw [initAndExecute]
  rcases init_result script tx txIdx flags (reset vm) with ⟨opens, isOk⟩ | ⟨_, fails⟩
  swap
  · rw [fails]
    exact Nat.le_add_right _ _
  have isEngine : opens.engineOn flags (reset vm) = opens.engine flags := by
    rw [Opens.engineOn, show (reset vm).program.isP2SH = false from rfl, Bool.or_false]
    rfl
  have sameInput : opens.input = input := Option.some.inj (opens.isInput.symm.trans isInput)
  have bound := @execute_verifies prims (opens.engine flags).settings
    _ rounds _ ⟨opens.staged flags checks, counted_of_opens opens checks⟩
  rw [isOk, isEngine, ← sameInput]
  dsimp only [run]
  generalize outcome (execute prims (opens.engine flags).settings rounds)
    ((opens.engine flags).start checks) = result at bound ⊢
  rcases result with ⟨_ | _, _⟩
  · exact bound
  · exact bound

end Static

end Htnd.Txscript.SigOpCounts
