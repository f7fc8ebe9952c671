import Htnd.Txscript.Execution
import Htnd.Txscript.Parsing

/-!
# What a step does

A step fails without an opcode at the program counter; else it executes that
opcode, whose handler is called unless it stands in a branch that is skipped,
and goes on in the script or leaves it.
-/

namespace Htnd.Txscript.StepCases

open Lib.Calls Script Stacks Handlers Signatures Execution Bounds Parsing Option

/-! ## Executing an opcode -/

/-- A session that has counted a number of operations. -/
def counting (vm : Session) (numOps : Nat) : Session := { vm with machine.numOps := numOps }

theorem admitOpcode_counts (settings : Settings) (pop : ParsedOpcode) (vm : Session) :
    Yields (fun before => before = vm) (onMachine (admitOpcode settings pop))
    (fun _ after => ∃ numOps, after = counting vm numOps)
    (fun _ after => ∃ numOps, after = counting vm numOps) := by
  refine .zoom ?_
  rintro vm rfl
  have same : ∀ after : Machine, after = vm.machine →
      ∃ numOps, { vm with machine := after } = counting vm numOps :=
    fun _ isMachine => ⟨vm.machine.numOps, by rw [isMachine]; rfl⟩
  have counted : ∀ numOps (after : Machine),
      after = { vm.machine with numOps := numOps } →
      ∃ numOps, { vm with machine := after } = counting vm numOps :=
    fun numOps _ isMachine => ⟨numOps, isMachine ▸ rfl⟩
  rw [admitOpcode]
  by_cases isDisabled : pop.isDisabled = true ∧ settings.flags &&& scriptEnableDisabledOpcodes = 0
  · rw [if_pos isDisabled]
    exact .throw same
  rw [if_neg isDisabled]
  by_cases isIllegal : pop.alwaysIllegal = true
  · rw [if_pos isIllegal]
    exact .throw same
  rw [if_neg isIllegal]
  by_cases isCounted : op16 < pop.value
  · rw [if_pos isCounted]
    refine .after_modify fun _ isMachine => .get ?_
    rintro _ rfl
    rw [isMachine]
    split_ifs
    · exact .throw (counted _)
    · exact .pure (counted _)
  · split_ifs
    · exact .throw same
    · exact .pure same

variable {prims : Primitives} {settings : Settings}

/-- An opcode is skipped, or its handler is called. -/
theorem execute_cases {pop : ParsedOpcode} {vm : Session}
    {post : Unit → Session → Prop} {fail : Failure → Session → Prop}
    (skips : ∀ numOps, vm.machine.isBranchExecuting = false → pop.isConditional = false →
    post () (counting vm numOps)) (calls : ∀ numOps, vm.machine.isBranchExecuting = true ∨
    pop.isConditional = true → (vm.machine.isBranchExecuting = true → pop.value ≠ 0 →
    pop.value ≤ opPushData4 → pop.checkMinimalDataPush = .ok ()) →
    Yields (fun before => before = counting vm numOps) (callOpfunc prims settings pop) post fail)
    (fails : ∀ failure numOps, fail failure (counting vm numOps)) :
    Yields (fun before => before = vm) (executeOpcode prims settings pop) post fail := by
  refine .bind ((admitOpcode_counts settings pop vm).imp (fun _ => id)
    (fun _ _ => id) ?_) fun _ => .get ?_
  · rintro failure _ ⟨numOps, rfl⟩
    exact fails failure numOps
  rintro _ ⟨numOps, rfl⟩
  have isBranch : (counting vm numOps).machine.isBranchExecuting =
    vm.machine.isBranchExecuting := rfl
  rw [isBranch]
  by_cases isSkipped : ¬ vm.machine.isBranchExecuting = true ∧ ¬ pop.isConditional = true
  · have isSkip := isSkipped
    rw [Bool.not_eq_true, Bool.not_eq_true] at isSkip
    rw [if_pos (by simpa using isSkip)]
    rintro _ rfl
    exact skips numOps isSkip.1 isSkip.2
  have isCalled : vm.machine.isBranchExecuting = true ∨ pop.isConditional = true := by
    rw [not_and_or, not_not, not_not] at isSkipped
    exact isSkipped
  rw [if_neg (by simpa using isSkipped)]
  split_ifs with isPush
  · cases isMinimal : pop.checkMinimalDataPush with
    | error failure =>
      rintro _ rfl
      exact fails failure numOps
    | ok _ => exact calls numOps isCalled fun _ _ _ => isMinimal
  · exact calls numOps isCalled fun active notZero isSmall =>
      absurd ⟨active, notZero, isSmall⟩ isPush

/-! ## One step -/

/-- The opcode at the program counter. -/
def opcodeAt (program : Program) : Option ParsedOpcode :=
  program.scripts[program.scriptIdx]?.bind fun script => script[program.scriptOff]?

def advance (program : Program) : Program := { program with scriptOff := program.scriptOff + 1 }

/-- Whether no opcode of the current script follows. -/
def scriptEnds (program : Program) : Bool := (opcodeAt (advance program)).isNone

variable {program : Program}

theorem validPC_of_opcodeAt_none (halted : opcodeAt program = none) :
    validPC program = .error (.scriptError .invalidProgramCounter) := by
  rw [validPC]
  by_cases isPast : program.scripts.length ≤ program.scriptIdx
  · rw [if_pos isPast]
    rfl
  have inRange := Nat.lt_of_not_le isPast
  rw [opcodeAt, List.getElem?_eq_getElem inRange, bind_some, List.getElem?_eq_none_iff] at halted
  rw [if_neg isPast, index_ok inRange]
  change (if _ then _ else _) = _
  rw [if_pos halted]
  rfl

variable {op : ParsedOpcode}

theorem opcodeAt_some (isOp : opcodeAt program = some op) : ∃ script,
    program.scripts[program.scriptIdx]? = some script ∧ script[program.scriptOff]? = some op :=
  bind_eq_some_iff.mp isOp

variable {α : Type}

theorem index_of_some {items : List α} {place : Nat} {item : α}
    (isItem : items[place]? = some item) : index items place = .ok item := by
  rw [index, isItem]

theorem validPC_of_opcodeAt (isOp : opcodeAt program = some op) : validPC program = .ok () := by
  rcases opcodeAt_some isOp with ⟨_, isScript, atOff⟩
  have inScripts := (List.getElem?_eq_some_iff.mp isScript).1
  have inScript := (List.getElem?_eq_some_iff.mp atOff).1
  rw [validPC, if_neg (not_le.mpr inScripts), index_of_some isScript]
  change (if _ then _ else _) = _
  rw [if_neg (not_le.mpr inScript)]
  rfl

/-- What a step does, from its opcode and from what is done after it. -/
theorem step_yields {pre : Vm → Prop} {post : Bool → Vm → Prop} {fail : Failure → Vm → Prop}
    (halts : ∀ vm, pre vm → opcodeAt vm.program = none → fail (.scriptError .invalidProgramCounter)
    vm) (executes : ∀ vm op, pre vm → opcodeAt vm.program = some op →
    Yields (fun session => session = vm.session) (executeOpcode prims settings op)
    (fun _ session => Yields (fun vm' => vm' = ⟨advance vm.program, session⟩)
    (afterOpcode (scriptEnds vm.program)) post fail)
    (fun fails session => fail fails ⟨advance vm.program, session⟩)) :
    Yields pre (step prims settings) post fail := by
  refine .get fun vm holds => ?_
  dsimp only
  cases isOp : opcodeAt vm.program with
  | none =>
    rw [validPC_of_opcodeAt_none isOp]
    exact .throw fun _ isVm => isVm ▸ halts vm holds isOp
  | some op =>
    rcases opcodeAt_some isOp with ⟨script, isScript, atOff⟩
    have ends : decide (script.length ≤ vm.program.scriptOff + 1) = scriptEnds vm.program := by
      rw [scriptEnds, opcodeAt, advance, isScript, bind_some]
      by_cases isPast : script.length ≤ vm.program.scriptOff + 1
      · rw [decide_eq_true isPast, List.getElem?_eq_none isPast]
        rfl
      · rw [decide_eq_false isPast, List.getElem?_eq_getElem (Nat.lt_of_not_le isPast)]
        rfl
    rw [validPC_of_opcodeAt isOp, compute_ok, index_of_some isScript,
      compute_ok, index_of_some atOff, compute_ok, ends]
    refine .after_modify fun _ isVm => ?_
    rw [isVm]
    have executed : Yields (fun vm' => vm' = ⟨advance vm.program, vm.session⟩)
        (onSession (executeOpcode prims settings op)) (fun _ vm' => Yields (fun vm'' => vm'' = vm')
        (afterOpcode (scriptEnds vm.program)) post fail) fail := Yields.zoom fun vm' isVm' => by
        rw [isVm']
        exact executes vm op holds isOp
    exact executed.bind fun _ => .by_state fun _ => id

/-! ## Leaving a script -/

/-- The next script, after the stack of the first one was saved. -/
def saving (program : Program) (dstack : Stack) : Program :=
  { nextScript program with scriptOff := 0, savedFirstStack := dstack }

/-- The redeem script, which comes last. -/
def redeeming (program : Program) (pops : List ParsedOpcode) : Program :=
  { nextScript program with
    scriptOff := 0, scripts := program.scripts ++ [pops] }

def goingOn (program : Program) : Program := { nextScript program with scriptOff := 0 }

/-- The program and the data stack after a script, from those before. -/
inductive Leaves (program : Program) (dstack : Stack) : Program → Stack → Prop
  | saves (isFirst : program.scriptIdx = 0) (isP2SH : program.isP2SH = true) :
      Leaves program dstack (saving program dstack) dstack
  | redeems {script : Element} {rest : Stack} {pops : List ParsedOpcode}
      (isSecond : program.scriptIdx = 1) (isP2SH : program.isP2SH = true)
      (isSaved : program.savedFirstStack = script :: rest) (isParsed : parsed script = .ok pops) :
      Leaves program dstack (redeeming program pops) rest
  | goesOn (isOther : ¬ (program.scriptIdx ≤ 1 ∧ program.isP2SH = true)) :
      Leaves program dstack (goingOn program) dstack

/-- The next script but one if the next is empty. -/
def skipEmpty (program : Program) : Program :=
  if program.scriptIdx < program.scripts.length ∧ opcodeAt program = none then
    nextScript program
  else program

theorem skipEmpty_cases (program : Program) :
    skipEmpty program = program ∨ skipEmpty program = nextScript program := by
  rw [skipEmpty]
  split_ifs
  · exact .inr rfl
  · exact .inl rfl

theorem scriptIdx_le_skipEmpty (program : Program) :
    program.scriptIdx ≤ (skipEmpty program).scriptIdx := by
  rcases skipEmpty_cases program with isSame | isNext
  · rw [isSame]
  · rw [isNext]
    exact Nat.le_succ _

theorem skipEmpty_savedFirstStack (program : Program) :
    (skipEmpty program).savedFirstStack = program.savedFirstStack := by
  rcases skipEmpty_cases program with isSame | isNext
  · rw [isSame]
  · rw [isNext]
    rfl

theorem outcome_skipEmptyScript (vm : Vm) : outcome skipEmptyScript vm =
      (.ok (), { vm with program := skipEmpty vm.program }) := by
  rw [skipEmptyScript, outcome_bind, outcome_get, skipEmpty]
  dsimp only
  by_cases inRange : vm.program.scriptIdx < vm.program.scripts.length
  · have isScript := List.getElem?_eq_getElem inRange
    rw [if_pos inRange, index_of_some isScript, compute_ok]
    by_cases isPast : (vm.program.scripts[vm.program.scriptIdx]).length ≤ vm.program.scriptOff
    · have halted : opcodeAt vm.program = none := by
        rw [opcodeAt, isScript]
        exact List.getElem?_eq_none isPast
      rw [if_pos isPast, if_pos ⟨inRange, halted⟩]
      rfl
    · have isOp : opcodeAt vm.program ≠ none := by
        rw [opcodeAt, isScript, bind_some, List.getElem?_eq_getElem (Nat.lt_of_not_le isPast)]
        exact nofun
      rw [if_neg isPast, if_neg fun halted => isOp halted.2]
      rfl
  · rw [if_neg inRange, if_neg fun halted => inRange halted.1]
    rfl

theorem outcome_onStack (call : StackCall α) (vm : Vm) :
    outcome (onStack call) vm = ((outcome call vm.session.machine.dstack).1,
        { vm with session.machine.dstack := (outcome call vm.session.machine.dstack).2 }) :=
  rfl

/-- A machine with nothing but a data stack. -/
def restarted (dstack : Stack) : Machine := ⟨dstack, [], [], 0⟩

theorem outcome_popBool_nil : outcome popBool [] =
      (.error (.scriptError .invalidStackOperation), []) := by
  rw [popBool, outcome_bind, outcome_pop_nil]

section Leaving

variable {program : Program} {dstack : Stack} {checks : Checks}
  (short : (dstack.length : Int) ≤ maxInt32)

include short

theorem popBool_yields : Yields (fun vm => vm = ⟨program, restarted dstack, checks⟩)
    (onStack popBool) (fun _ vm => ∃ rest, (rest.length : Int) ≤ maxInt32 ∧
    vm = ⟨program, restarted rest, checks⟩) (fun fails vm => vm.session.checks = checks ∧
    IsError fails) := by
  rintro _ rfl
  rw [outcome_onStack]
  cases dstack with
  | nil =>
    simp only [restarted, outcome_popBool_nil]
    exact ⟨trivial, isError_script _⟩
  | cons so rest =>
    simp only [restarted, popBool, outcome_bind, outcome_pop_cons short]
    rw [List.length_cons] at short
    exact ⟨rest, by omega, rfl⟩

/-- The check before a redeem script pops the result of the script hash. -/
theorem checkErrorCondition_yields : Yields (fun vm => vm = ⟨program, restarted dstack, checks⟩)
    (checkErrorCondition false) (fun _ vm => ∃ rest, (rest.length : Int) ≤ maxInt32 ∧
    vm = ⟨program, restarted rest, checks⟩) (fun fails vm => vm.session.checks = checks ∧
    IsError fails) := by
  refine .get fun vm isVm => ?_
  by_cases unfinished : vm.program.scriptIdx < vm.program.scripts.length
  · rw [if_pos unfinished]
    rintro _ rfl
    rw [isVm]
    exact ⟨rfl, isError_script _⟩
  rw [if_neg unfinished, isVm]
  refine (popBool_yields short).bind fun v => ?_
  split_ifs
  · rintro _ ⟨rest, _, rfl⟩
    exact ⟨rfl, isError_script _⟩
  · exact .pure fun _ => id

theorem setStack_yields (stk : Stack) : Yields (fun vm => vm = ⟨program, restarted dstack, checks⟩)
    (onStack (setStack stk)) (fun _ vm => vm = ⟨program, restarted stk, checks⟩)
    (fun _ _ => False) := by
  rintro _ rfl
  rw [outcome_onStack]
  simp only [restarted, outcome_setStack short]

theorem enterRedeemScript_yields (saved : program.savedFirstStack ≠ []) :
    Yields (fun vm => vm = ⟨program, restarted dstack, checks⟩)
      enterRedeemScript (fun _ vm => ∃ script rest pops,
        program.savedFirstStack = script :: rest ∧ parsed script = .ok pops ∧
        vm = ⟨{ nextScript program with scripts := program.scripts ++ [pops] },
          restarted rest, checks⟩)
      (fun failure vm => vm.session.checks = checks ∧ IsError failure) := by
  obtain ⟨script, rest, isSaved⟩ := List.exists_cons_of_ne_nil saved
  refine .after_modify fun _ isVm => ?_
  rw [isVm]
  refine (checkErrorCondition_yields short).bind fun _ => ?_
  refine .get fun vm after => ?_
  rcases after with ⟨_, shortPopped, rfl⟩
  dsimp only [nextScript]
  rw [isSaved, index_ok (by simp), compute_ok]
  rcases parsed_result script with ⟨pops, isParsed, _⟩ | fails
  · rw [List.getElem_cons_zero, isParsed, compute_ok]
    refine .after_modify fun _ isVm' => ?_
    rw [isVm']
    refine (setStack_yields shortPopped _).imp (fun _ => id) ?_ fun _ _ => False.elim
    rintro _ _ rfl
    exact ⟨script, rest, pops, rfl, isParsed, rfl⟩
  · rw [List.getElem_cons_zero, fails]
    refine .throw fun _ isVm' => ?_
    rw [isVm']
    exact ⟨rfl, isError_script _⟩

theorem enterNextScript_yields
    (saved : program.scriptIdx = 1 → program.isP2SH = true →
      program.savedFirstStack ≠ []) : Yields (fun vm => vm =
        ⟨{ program with scriptOff := 0 }, restarted dstack, checks⟩)
      enterNextScript
      (fun _ vm => ∃ program' dstack', Leaves program dstack program' dstack' ∧
        vm = ⟨program', restarted dstack', checks⟩)
      (fun fails vm => vm.session.checks = checks ∧ IsError fails) := by
  refine .get fun vm isVm => ?_
  subst isVm
  by_cases first : program.scriptIdx = 0 ∧ program.isP2SH = true
  · rw [if_pos first]
    refine .after_modify fun _ isVm => ?_
    rw [isVm]
    rintro _ rfl
    rw [outcome_bind, outcome_onStack]
    simp only [restarted, outcome_getStack short]
    exact ⟨_, _, .saves first.1 first.2, rfl⟩
  rw [if_neg first]
  by_cases second : program.scriptIdx = 1 ∧ program.isP2SH = true
  · rw [if_pos second]
    have redeems := @enterRedeemScript_yields { program with scriptOff := 0 }
      dstack checks short (saved second.1 second.2)
    refine redeems.imp (fun _ => id) ?_ fun _ _ => id
    rintro _ _ ⟨_, _, _, isSaved, isParsed, rfl⟩
    exact ⟨_, _, .redeems second.1 second.2 isSaved isParsed, rfl⟩
  rw [if_neg second]
  refine .of_modify fun _ isVm => ?_
  rw [isVm]
  refine ⟨_, _, .goesOn ?_, rfl⟩
  rintro ⟨_, isP2SH⟩
  have isEither : program.scriptIdx = 0 ∨ program.scriptIdx = 1 := by omega
  rcases isEither with isIdx | isIdx
  · exact first ⟨isIdx, isP2SH⟩
  · exact second ⟨isIdx, isP2SH⟩

end Leaving

/-! ## After an opcode -/

/-- Where a step goes on after its opcode. -/
inductive GoesOn (vm : Vm) : Bool → Vm → Prop
  | within : GoesOn vm false vm
  | leaves {program : Program} {dstack : Stack} (balanced : vm.session.machine.condStack = [])
      (left : Leaves vm.program vm.session.machine.dstack program dstack) :
      GoesOn vm true ⟨skipEmpty program, restarted dstack, vm.session.checks⟩

def stackSize (vm : Machine) : Nat := vm.dstack.length + vm.astack.length

variable {vm : Vm}

theorem leaveScript_yields (short : (stackSize vm.session.machine : Int) ≤ maxInt32)
    (saved : vm.program.scriptIdx = 1 → vm.program.isP2SH = true →
    vm.program.savedFirstStack ≠ []) : Yields (fun before => before = vm) leaveScript
    (fun _ vm' => vm.session.machine.condStack = [] ∧ ∃ program dstack,
    Leaves vm.program vm.session.machine.dstack program dstack ∧
    vm' = ⟨program, restarted dstack, vm.session.checks⟩)
    (fun fails vm' => vm'.session.checks = vm.session.checks ∧ IsError fails) := by
  rcases vm with ⟨program, ⟨dstack, astack, condStack, numOps⟩, checks⟩
  simp only [stackSize] at short saved ⊢
  rintro _ rfl
  rw [leaveScript, outcome_bind, outcome_get]
  dsimp only
  cases condStack with
  | cons cond outer => exact ⟨rfl, isError_script _⟩
  | nil =>
    rw [if_neg (by simp), outcome_bind]
    have dropped : outcome (onSession (onMachine (onAlt dropAll)))
        ⟨program, ⟨dstack, astack, [], numOps⟩, checks⟩ =
        (.ok (), ⟨program, ⟨dstack, [], [], numOps⟩, checks⟩) := by
      have drops : outcome dropAll astack = (.ok (), []) := outcome_dropAll (by omega)
      change ((outcome dropAll astack).1, Vm.mk program
        ⟨⟨dstack, (outcome dropAll astack).2, [], numOps⟩, checks⟩) = _
      rw [drops]
    rw [dropped]
    have entered := @enterNextScript_yields program dstack checks (by omega) saved
    exact (entered.imp (fun _ => id) (fun _ _ left => ⟨rfl, left⟩) fun _ _ => id) _ rfl

/-- What a step does after its opcode, whatever the opcode left. -/
theorem afterOpcode_yields {ends : Bool} (saved : vm.program.scriptIdx = 1 →
    vm.program.isP2SH = true → vm.program.savedFirstStack ≠ []) : Yields (fun before => before = vm)
    (afterOpcode ends) (fun _ vm' => stackSize vm.session.machine ≤ maxStackSize ∧
    GoesOn vm ends vm') (fun fails vm' => vm'.session.checks = vm.session.checks ∧
    ((stackSize vm.session.machine : Int) ≤ maxInt32 → IsError fails)) := by
  have dataDepth : outcome (onStack depth) vm =
      (checkedStackSize vm.session.machine.dstack.length, vm) := rfl
  have altDepth : outcome (onSession (onMachine (onAlt depth))) vm =
      (checkedStackSize vm.session.machine.astack.length, vm) := rfl
  intro before isVm
  rw [isVm, afterOpcode, outcome_bind, dataDepth]
  by_cases shortData : (vm.session.machine.dstack.length : Int) ≤ maxInt32
  · rw [stackSize_ok shortData]
    simp only
    rw [outcome_bind, altDepth]
    by_cases shortAlt : (vm.session.machine.astack.length : Int) ≤ maxInt32
    · rw [stackSize_ok shortAlt]
      simp only
      by_cases overflow : (maxStackSize : Int) <
        vm.session.machine.dstack.length + vm.session.machine.astack.length
      · rw [if_pos overflow]
        exact ⟨rfl, fun _ => isError_script _⟩
      rw [if_neg overflow]
      have small : stackSize vm.session.machine ≤ maxStackSize := by
        rw [stackSize]
        omega
      cases ends with
      | false => exact ⟨small, .within⟩
      | true =>
        have short : (stackSize vm.session.machine : Int) ≤ maxInt32 :=
          Int.le_trans (Int.ofNat_le.mpr small) (by decide)
        have left := leaveScript_yields short saved vm rfl
        rw [if_pos rfl, outcome_bind]
        generalize outcome leaveScript vm = result at left ⊢
        rcases result with ⟨fails | _, vm'⟩
        · exact ⟨left.1, fun _ => left.2⟩
        · rcases left with ⟨balanced, program, dstack, leaves, rfl⟩
          simp only
          rw [outcome_bind, outcome_skipEmptyScript]
          exact ⟨small, .leaves balanced leaves⟩
    · rw [stackSize_large shortAlt]
      refine ⟨rfl, fun short => absurd short ?_⟩
      rw [stackSize]
      omega
  · rw [stackSize_large shortData]
    refine ⟨rfl, fun short => absurd short ?_⟩
    rw [stackSize]
    omega

end Htnd.Txscript.StepCases
