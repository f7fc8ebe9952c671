import Htnd.Txscript.StepCases

/-!
# Runs of the engine

A staged engine stays staged with every step.  A run takes successful steps from
an engine that has started, and its trace lists the opcodes it executed, each
with the index of its script.
-/

namespace Htnd.Txscript.Runs

open Lib.Calls Script Stacks Handlers Signatures Execution Bounds Parsing
open StepCases

/-! ## Staged engines -/

/--
An engine that has room on its stacks.  Before the redeem script of a
pay-to-script-hash spend there are two scripts, and the second one has nothing
to read if the first left nothing to save.
-/
structure Staged (vm : Vm) : Prop where
  small : stackSize vm.session.machine ≤ maxStackSize
  savedSmall : vm.program.savedFirstStack.length ≤ maxStackSize
  scriptHash : vm.program.isP2SH = true → vm.program.scriptIdx ≤ 1 →
    ∃ first second, vm.program.scripts = [first, second] ∧ isScriptHash second = true
  unsaved : vm.program.isP2SH = true → vm.program.scriptIdx = 1 → vm.program.savedFirstStack = [] →
    vm.program.scriptOff = 0 ∧ vm.session.machine.dstack = [] ∧ vm.session.machine.condStack = []

variable {pop : ParsedOpcode}

theorem opfunc_of_blake2b (value : pop.value = 0xaa) : pop.opcode.opfunc = .opcodeBlake2b := by
  have table : ∀ instr : UInt8, (opcodeArray instr).value = 0xaa →
      (opcodeArray instr).opfunc = .opcodeBlake2b := forall_byte (by decide +kernel)
  exact table pop.instr value

/-- A hash opcode fails without an item to hash. -/
theorem executeOpcode_blake2b_nil {primitives : Primitives} {settings : Settings} {vm : Session}
    (value : pop.value = 0xaa) (empty : vm.machine.dstack = [])
    (noCond : vm.machine.condStack = []) : Yields (fun before => before = vm)
    (executeOpcode primitives settings pop) (fun _ _ => False) (fun _ _ => True) := by
  have active : vm.machine.isBranchExecuting = true := by rw [Machine.isBranchExecuting, noCond]
  refine execute_cases ?_ ?_ fun _ _ => trivial
  · intro _ notExecuting
    rw [active] at notExecuting
    cases notExecuting
  · rintro _ - - _ rfl
    rw [callOpfunc, opfunc_of_blake2b value]
    simp only [onMachine, onData, replaceByHash, outcome_zoom, outcome_bind,
      counting, empty, outcome_pop_nil]

variable {fail : Failure → Vm → Prop}

section Staged

variable {primitives : Primitives} {settings : Settings} {vm : Vm} {op : ParsedOpcode}

/-- An opcode of the second script finds a saved stack. -/
theorem Staged.saved (staged : Staged vm) (isOp : opcodeAt vm.program = some op) :
    Yields (fun before => before = vm.session) (executeOpcode primitives settings op)
    (fun _ _ => vm.program.scriptIdx = 1 → vm.program.isP2SH = true →
    vm.program.savedFirstStack ≠ []) (fun _ _ => True) := by
  by_cases isUnsaved : vm.program.scriptIdx = 1 ∧ vm.program.isP2SH = true ∧
    vm.program.savedFirstStack = []
  · rcases isUnsaved with ⟨isSecond, isP2SH, empty⟩
    have nothing := staged.unsaved isP2SH isSecond empty
    obtain ⟨_, second, isScripts, isHash⟩ := staged.scriptHash isP2SH (le_of_eq isSecond)
    have value : op.value = 0xaa := by
      rw [opcodeAt, isScripts, isSecond, nothing.1] at isOp
      rcases second with _ | ⟨_, _ | ⟨_, _ | ⟨_, _ | _⟩⟩⟩
      all_goals simp [isScriptHash] at isHash
      cases isOp
      exact isHash.1.1
    exact (executeOpcode_blake2b_nil value nothing.2.1 nothing.2.2).imp
      (fun _ => id) (fun _ _ => False.elim) fun _ _ => id
  · refine fun _ _ => ?_
    have saved : vm.program.scriptIdx = 1 → vm.program.isP2SH = true →
        vm.program.savedFirstStack ≠ [] :=
      fun isSecond isP2SH empty => isUnsaved ⟨isSecond, isP2SH, empty⟩
    split
    · exact saved
    · trivial

variable {code : Program} {session : Session}

/-- After the first script an empty script may be skipped. -/
theorem Staged.skipEmpty (staged : Staged ⟨code, session⟩)
    (isPast : 1 ≤ code.scriptIdx) : Staged ⟨skipEmpty code, session⟩ := by
  rcases skipEmpty_cases code with isSame | isNext
  · rw [isSame]
    exact staged
  rw [isNext]
  refine ⟨staged.small, staged.savedSmall, ?_, ?_⟩
  · intro _ isEarly
    exact absurd (Nat.le_of_succ_le_succ isEarly) (by omega)
  · intro _ second
    exact absurd (Nat.succ.inj second) (by omega)

/-- An engine past the scripts of a script hash is staged. -/
theorem staged_of_past {dstack : Stack} {checks : Checks} (small : dstack.length ≤ maxStackSize)
    (savedSmall : code.savedFirstStack.length ≤ maxStackSize) (isPast : code.isP2SH = true →
    1 < code.scriptIdx) : Staged ⟨code, restarted dstack, checks⟩ where
  small := small
  savedSmall := savedSmall
  scriptHash isP2SH isEarly := absurd (isPast isP2SH) (not_lt.mpr isEarly)
  unsaved isP2SH second _ := absurd (isPast isP2SH) (not_lt.mpr (le_of_eq second))

theorem Staged.goesOn (staged : Staged vm) {vm' : Vm}
    {ends : Bool} (small : stackSize session.machine ≤ maxStackSize)
    (saved : vm.program.scriptIdx = 1 → vm.program.isP2SH = true → vm.program.savedFirstStack ≠ [])
    (follows : GoesOn ⟨advance vm.program, session⟩ ends vm') : Staged vm' := by
  have dataSmall : session.machine.dstack.length ≤ maxStackSize :=
    le_trans (Nat.le_add_right _ _) small
  cases follows with
  | within =>
    refine ⟨small, staged.savedSmall, staged.scriptHash, ?_⟩
    exact fun isP2SH second empty => absurd empty (saved second isP2SH)
  | @leaves code dstack balanced left =>
    cases left with
    | saves first isP2SH =>
      have isEarly : vm.program.scriptIdx ≤ 1 := le_trans (le_of_eq first) (Nat.zero_le 1)
      have unskipped : Staged ⟨saving (advance vm.program) session.machine.dstack,
          restarted session.machine.dstack, session.checks⟩ := ⟨dataSmall, dataSmall,
          fun _ _ => staged.scriptHash isP2SH isEarly, fun _ _ empty => ⟨rfl, empty, rfl⟩⟩
      exact unskipped.skipEmpty (Nat.le_add_left _ _)
    | @redeems script _ pops second isP2SH isSaved isParsed =>
      have savedSmall := staged.savedSmall
      have restSmall : dstack.length ≤ maxStackSize := by
        change vm.program.savedFirstStack = script :: dstack at isSaved
        rw [isSaved, List.length_cons] at savedSmall
        omega
      have isPast : 1 < vm.program.scriptIdx + 1 :=
        Nat.succ_lt_succ (Nat.lt_of_lt_of_eq Nat.one_pos second.symm)
      have unskipped : Staged ⟨redeeming (advance vm.program) pops,
          restarted dstack, session.checks⟩ := staged_of_past restSmall savedSmall fun _ => isPast
      exact unskipped.skipEmpty (Nat.le_add_left _ _)
    | goesOn isIn =>
      have unskipped : Staged ⟨goingOn (advance vm.program),
          restarted session.machine.dstack, session.checks⟩ := by
        refine staged_of_past dataSmall staged.savedSmall fun isP2SH => ?_
        by_contra isEarly
        exact isIn ⟨Nat.le_of_succ_le (Nat.le_of_not_lt isEarly), isP2SH⟩
      exact unskipped.skipEmpty (Nat.le_add_left _ _)

theorem step_halts (halted : opcodeAt vm.program = none) : outcome (step primitives settings) vm =
    (.error (.scriptError .invalidProgramCounter), vm) := by
  rw [step, outcome_bind, outcome_get]
  dsimp only
  rw [validPC_of_opcodeAt_none halted]
  rfl

/-- One step of a staged engine, which stays staged. -/
theorem Staged.step_yields (staged : Staged vm) (isOp : opcodeAt vm.program = some op)
    {middle : Session → Prop} {post : Vm → Prop}
    (executes : Yields (fun before => before = vm.session) (executeOpcode primitives settings op)
    (fun _ => middle) (fun failure session => fail failure ⟨advance vm.program, session⟩))
    (goes : ∀ session vm', middle session → stackSize session.machine ≤ maxStackSize → Staged vm' →
    GoesOn ⟨advance vm.program, session⟩ (scriptEnds vm.program) vm' → post vm')
    (fails : ∀ session failure vm', middle session → vm'.session.checks = session.checks →
    ((stackSize session.machine : Int) ≤ maxInt32 → IsError failure) → fail failure vm') :
    Yields (fun before => before = vm) (step primitives settings) (fun _ => post) fail := by
  refine StepCases.step_yields ?_ ?_
  · rintro _ rfl halted
    rw [isOp] at halted
    cases halted
  · rintro vm _ rfl isOp'
    rw [isOp] at isOp'
    cases isOp'
    refine (executes.and (staged.saved isOp)).imp (fun _ => id) ?_ fun _ _ => And.left
    rintro _ session ⟨holds, saved⟩
    have after := @afterOpcode_yields ⟨advance vm.program, session⟩ (scriptEnds vm.program) saved
    refine after.imp (fun _ => id) ?_ ?_
    · rintro _ vm' ⟨small, follows⟩
      exact goes session vm' holds small (staged.goesOn small saved follows) follows
    · rintro failure vm' ⟨sameChecks, isError⟩
      exact fails session failure vm' holds sameChecks isError

end Staged

/-! ## Runs -/

section Runs

variable (primitives : Primitives) (settings : Settings) (start : Vm)

/-- The opcodes executed, each with the index of its script. -/
abbrev Trace := List (Nat × ParsedOpcode)

/-- Where successful steps lead, with the opcodes they execute. -/
inductive Reaches : Trace → Vm → Prop
  | refl : Reaches [] start
  | next {trace : Trace} {vm vm' : Vm} {op : ParsedOpcode} {done : Bool}
      (reached : Reaches trace vm) (isOp : opcodeAt vm.program = some op)
      (steps : outcome (step primitives settings) vm = (.ok done, vm')) :
      Reaches (trace ++ [(vm.program.scriptIdx, op)]) vm'

variable {primitives settings start}

/-- What holds at the start and after each step holds along a run. -/
theorem Reaches.invariant {holds : Trace → Vm → Prop} (starts : holds [] start)
    (keeps : ∀ trace vm op, holds trace vm → opcodeAt vm.program = some op →
    Yields (fun before => before = vm) (step primitives settings)
    (fun _ vm' => holds (trace ++ [(vm.program.scriptIdx, op)]) vm') (fun _ _ => True))
    {trace : Trace} {vm : Vm} (meets : Reaches primitives settings start trace vm) :
    holds trace vm := by
  induction meets with
  | refl => exact starts
  | @next trace vm vm' op done _ isOp steps ih =>
    have after := keeps trace vm op ih isOp vm rfl
    rw [steps] at after
    exact after

variable (primitives settings) in
/-- Where a number of successful steps leads. -/
def stepsFrom : Nat → Vm → Option Vm
  | 0, vm => some vm
  | count + 1, vm =>
    match stepsFrom count vm with
    | none => none
    | some vm =>
      match opcodeAt vm.program, outcome (step primitives settings) vm with
      | some _, (.ok _, vm') => some vm'
      | _, _ => none

theorem reaches_of_stepsFrom {count : Nat} {vm : Vm}
    (stepped : stepsFrom primitives settings count start = some vm) :
    ∃ trace, Reaches primitives settings start trace vm := by
  induction count generalizing vm with
  | zero =>
    cases stepped
    exact ⟨[], .refl⟩
  | succ count ih =>
    rw [stepsFrom] at stepped
    split at stepped
    · cases stepped
    next middle before =>
      rcases ih before with ⟨trace, meets⟩
      split at stepped
      · next isOp steps =>
          cases stepped
          exact ⟨_, meets.next isOp steps⟩
      · cases stepped

variable {holds : Vm → Prop}

/-- What every step keeps holds after any number of rounds. -/
theorem steps_keep
    (keeps : ∀ vm, holds vm → Yields (fun before => before = vm) (step primitives settings)
    (fun _ vm' => holds vm') fail) (stops : ∀ vm, holds vm → fail .unfinished vm) (rounds : Nat) :
    Yields holds (steps primitives settings rounds) (fun _ vm => holds vm)
      fail := by
  induction rounds with
  | zero => exact fun vm holds => stops vm holds
  | succ rounds ih =>
    refine .by_state fun vm before => ?_
    refine (keeps vm before).bind fun _ => ?_
    split_ifs
    · exact .pure fun _ => id
    · exact ih

/-- A run ends if a measure falls with every step. -/
theorem steps_yields {measure : Vm → Nat}
    (keeps : ∀ vm, holds vm → Yields (fun before => before = vm) (step primitives settings)
    (fun _ vm' => holds vm' ∧ measure vm' < measure vm) fail) (rounds : Nat) :
    Yields (fun vm => holds vm ∧ measure vm < rounds) (steps primitives settings rounds)
    (fun _ vm => holds vm) fail := by
  induction rounds with
  | zero => exact fun vm never => absurd never.2 (Nat.not_lt_zero _)
  | succ rounds ih =>
    refine .by_state fun vm before => ?_
    refine (keeps vm before.1).bind fun _ => ?_
    split_ifs
    · exact .pure fun _ => And.left
    · refine ih.imp (fun vm' after => ⟨after.1, ?_⟩) (fun _ _ => id) fun _ _ => id
      exact lt_of_lt_of_le after.2 (Nat.le_of_lt_succ before.2)

end Runs

end Htnd.Txscript.Runs
