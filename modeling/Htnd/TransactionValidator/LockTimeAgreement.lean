import Htnd.TransactionValidator.LockTimes
import Htnd.Txscript.Engines

/-!
# Script lock times agree with transaction lock times

A lock-time opcode that runs without error compares its operand with a field of
the transaction, and the validator compares the field with the chain.
-/

namespace Htnd.TransactionValidator.LockTimeAgreement

open Lib.Calls Lib.Fallible Utxo.Entry Consensus.Transactions Txscript.Script
open Txscript.Stacks Txscript.Handlers Txscript.Signatures Txscript.Execution
open Txscript.Bounds Txscript.Parsing Txscript.StepCases Txscript.Runs
open Txscript.Engines LockTimes

/-! ## What the opcodes compare -/

/-- What `OP_CHECKLOCKTIMEVERIFY` on a value says about the transaction. -/
structure LockTimeMet (settings : Settings) (n : UInt64) : Prop where
  le : n ≤ settings.tx.lockTime
  sameSide : n < lockTimeThreshold ↔ settings.tx.lockTime < lockTimeThreshold
  notFinal : ∃ input, settings.tx.inputs[settings.txIdx]? = some input ∧
    input.sequence ≠ maxTxInSequenceNum

/-- What `OP_CHECKSEQUENCEVERIFY` on a value says about the input. -/
def SequenceMet (settings : Settings) (n : UInt64) : Prop :=
  ∃ input, settings.tx.inputs[settings.txIdx]? = some input ∧
    input.sequence &&& sequenceLockTimeDisabled = 0 ∧
    n &&& sequenceLockTimeMask ≤ input.sequence &&& sequenceLockTimeMask

variable {rest : Stack} {so : Element} {settings : Settings} {tx : Transaction}
  {input : TransactionInput} {lock lock' : SequenceLockState} {entry : UTXOEntry}

theorem popUint64_yields : Yields (fun vm => vm.dstack = so :: rest) popUint64
      (fun n _ => n = uint64Of so) (fun _ _ => True) := by
  have popped : Yields (fun vm => vm.dstack = so :: rest)
      (onData popByteArray) (fun bytes _ => bytes = so) (fun _ _ => True) :=
    Yields.zoom fun vm isStack => popByteArray_yields.imp (fun _ => id)
      (fun _ _ isTop => (List.cons.inj (isStack.symm.trans isTop)).1.symm) fun _ _ => id
  refine popped.bind fun bytes => ?_
  split_ifs
  · exact fun _ _ => trivial
  · exact .pure fun _ isBytes => isBytes ▸ rfl

theorem currentInput_yields : Yields (fun _ => True) (currentInput settings)
      (fun input _ => settings.tx.inputs[settings.txIdx]? = some input) (fun _ _ => True) := by
  intro _ _
  rw [currentInput, index]
  cases settings.tx.inputs[settings.txIdx]? with
  | none => trivial
  | some input => rfl

/-- A test that did not return its error. -/
theorem guard_yields {pre : Machine → Prop} {fails : Prop} [Decidable fails] {code : ErrorCode} :
    Yields pre (if fails then scriptError code else pure ()) (fun _ vm => pre vm ∧ ¬ fails)
    (fun _ _ => True) := by
  split_ifs with isFailing
  · exact fun _ _ => trivial
  · exact .pure fun _ holds => ⟨holds, isFailing⟩

theorem opcodeCheckLockTimeVerify_yields : Yields (fun vm => vm.dstack = so :: rest)
    (opcodeCheckLockTimeVerify settings) (fun _ _ => LockTimeMet settings (uint64Of so))
    (fun _ _ => True) := by
  refine popUint64_yields.bind fun n => ?_
  refine .bind (.bind guard_yields fun _ => guard_yields) fun _ => ?_
  refine .by_state fun vm facts => ?_
  refine .bind (currentInput_yields.imp (fun _ _ => trivial)
    (fun _ _ => id) fun _ _ => id) fun input => ?_
  refine guard_yields.imp (fun _ => id) ?_ fun _ _ => id
  rintro _ _ ⟨isInput, notFinal⟩
  rcases facts with ⟨⟨rfl, sameSide⟩, le⟩
  refine ⟨UInt64.not_lt.mp le, ?_, input, isInput, notFinal⟩
  simp only [Bool.not_eq_true', Bool.not_eq_false, Bool.or_eq_true, Bool.and_eq_true,
    decide_eq_true_eq, UInt64.lt_iff_toNat_lt, UInt64.le_iff_toNat_le] at sameSide ⊢
  omega

theorem opcodeCheckSequenceVerify_yields (enabled : uint64Of so &&& sequenceLockTimeDisabled = 0) :
    Yields (fun vm => vm.dstack = so :: rest) (opcodeCheckSequenceVerify settings)
    (fun _ _ => SequenceMet settings (uint64Of so)) (fun _ _ => True) := by
  refine popUint64_yields.bind fun n => ?_
  refine .by_state ?_
  rintro vm rfl
  rw [if_neg (not_not.mpr enabled)]
  refine .bind (currentInput_yields.imp (fun _ _ => trivial)
    (fun _ _ => id) fun _ _ => id) fun input => ?_
  dsimp only
  split_ifs with isDisabled
  · exact fun _ _ => trivial
  · refine guard_yields.imp (fun _ => id) ?_ fun _ _ => id
    rintro _ _ ⟨isInput, le⟩
    exact ⟨input, isInput, not_not.mp isDisabled, UInt64.not_lt.mp le⟩

/-! ## Running an opcode -/

section Running

variable (primitives : Primitives) (scriptPubKey : ScriptPublicKey)
  (tx : Transaction) (txIdx : Int) (flags : ScriptFlags)

/--
Executing the scripts of an input ran an opcode without error while the given
item was on top of the stack.
-/
inductive Ran (value : UInt8) (so : Element) : Prop
  | intro {engine : Engine} {checks : Checks} {trace : Trace} {vm : Vm} {op : ParsedOpcode}
      {rest : Stack} {session : Session} (isEngine : newEngine scriptPubKey tx txIdx flags =
      .ok engine) (reached : Reaches primitives engine.settings (engine.start checks) trace vm)
      (isOp : opcodeAt vm.program = some op) (isValue : op.value = value)
      (isExecuting : vm.session.machine.isBranchExecuting = true)
      (isTop : vm.session.machine.dstack = so :: rest)
      (success : outcome (executeOpcode primitives engine.settings op) vm.session =
      (.ok (), session)) : Ran value so

end Running

/-- A run that can be evaluated: the opcode is the next after some steps. -/
def ranAfter (primitives : Primitives) (scriptPubKey : ScriptPublicKey)
    (tx : Transaction) (count : Nat) (value : UInt8) (so : Element) : Bool :=
  match newEngine scriptPubKey tx 0 0 with
  | .error _ => false
  | .ok engine =>
    match stepsFrom primitives engine.settings count (engine.start freshChecks) with
    | none => false
    | some vm =>
      match opcodeAt vm.program, vm.session.machine.dstack with
      | some op, top :: _ =>
        op.value == value && vm.session.machine.isBranchExecuting && top == so &&
          (outcome (executeOpcode primitives engine.settings op) vm.session).1.toOption.isSome
      | _, _ => false

theorem ran_of_ranAfter {primitives : Primitives} {scriptPubKey : ScriptPublicKey} {value : UInt8}
    (count : Nat) (holds : ranAfter primitives scriptPubKey tx count value so = true) :
    Ran primitives scriptPubKey tx 0 0 value so := by
  rw [ranAfter] at holds
  split at holds
  · cases holds
  next engine isEngine =>
    split at holds
    · cases holds
    next vm stepped =>
      rcases reaches_of_stepsFrom stepped with ⟨_, meets⟩
      split at holds
      · next op top rest isOp isTop =>
          simp only [Bool.and_eq_true, beq_iff_eq] at holds
          rcases holds with ⟨⟨⟨isValue, active⟩, rfl⟩, isOk⟩
          cases isOutcome : outcome (executeOpcode primitives engine.settings op) vm.session with
          | mk result session =>
            rw [isOutcome] at isOk
            cases result with
            | error fails => cases isOk
            | ok _ => exact .intro isEngine meets isOp isValue active isTop isOutcome
      · cases holds

variable {vm session : Session}

/-- An opcode in a branch that executes calls its handler. -/
theorem called_of_executed {primitives : Primitives} {op : ParsedOpcode}
    (active : vm.machine.isBranchExecuting = true)
    (isOk : outcome (executeOpcode primitives settings op) vm = (.ok (), session)) : ∃ numOps,
    outcome (callOpfunc primitives settings op) (counting vm numOps) = (.ok (), session) := by
  have calls : Yields (fun before => before = vm) (executeOpcode primitives settings op)
      (fun _ after => ∃ numOps, outcome (callOpfunc primitives settings op) (counting vm numOps) =
      (.ok (), after)) (fun _ _ => True) := by
    refine execute_cases ?_ ?_ fun _ _ => trivial
    · intro _ notExecuting
      rw [active] at notExecuting
      cases notExecuting
    · rintro numOps - - _ rfl
      cases isCalled : outcome (callOpfunc primitives settings op) (counting vm numOps) with
      | mk result after =>
        cases result with
        | error fails => trivial
        | ok value => exact ⟨numOps, isCalled⟩
  have called := calls vm rfl
  rw [isOk] at called
  exact called

theorem opfunc_of_lockTime {pop : ParsedOpcode} :
    (pop.value = 0xb0 → pop.opcode.opfunc = .opcodeCheckLockTimeVerify) ∧
    (pop.value = 0xb1 → pop.opcode.opfunc = .opcodeCheckSequenceVerify) := by
  have table : ∀ instr : UInt8, ((opcodeArray instr).value = 0xb0 → (opcodeArray instr).opfunc =
        .opcodeCheckLockTimeVerify) ∧ ((opcodeArray instr).value = 0xb1 →
        (opcodeArray instr).opfunc = .opcodeCheckSequenceVerify) := forall_byte (by decide +kernel)
  exact table pop.instr

section Met

variable {primitives : Primitives} {scriptPubKey : ScriptPublicKey}
  {tx : Transaction} {txIdx : Int} {flags : ScriptFlags} {so : Element}

/-- A handler of the machine that ran without error leaves what it yields. -/
theorem met_of_called {call : MachineCall Unit} {met : Prop} {numOps : Nat}
    {rest : Stack} (isTop : vm.machine.dstack = so :: rest)
    (yields : Yields (fun machine => machine.dstack = so :: rest) call (fun _ _ => met)
    (fun _ _ => True)) (isOk : outcome (onMachine call) (counting vm numOps) = (.ok (), session)) :
    met := by
  have zoomed : Yields (fun before => before = counting vm numOps) (onMachine call) (fun _ _ => met)
      (fun _ _ => True) := Yields.zoom fun _ isVm => yields.of_state (by rw [isVm]; exact isTop)
  have after := zoomed _ rfl
  rw [isOk] at after
  exact after

theorem lockTimeMet_of_ran (ran : Ran primitives scriptPubKey tx txIdx flags 0xb0 so) :
    LockTimeMet ⟨scriptPubKey.version, tx, txIdx.toNat, flags⟩ (uint64Of so) := by
  rcases ran with ⟨isEngine, _, _, value, active, isTop, isOk⟩
  rw [settings_of_init isEngine] at isOk
  rcases called_of_executed active isOk with ⟨_, called⟩
  rw [callOpfunc, opfunc_of_lockTime.1 value] at called
  exact met_of_called isTop opcodeCheckLockTimeVerify_yields called

end Met

/-! ## What the validator compares -/

/-- A final transaction with an input that is not has reached its lock time. -/
theorem lockTime_of_isFinalized {score : UInt64} {blockTime : Int64}
    (isFinal : isFinalizedTransaction tx score blockTime = true) (mem : input ∈ tx.inputs)
    (notFinal : input.sequence ≠ maxTxInSequenceNum) : tx.lockTime = 0 ∨
    (tx.lockTime < lockTimeThreshold ∧ tx.lockTime < score) ∨
    (lockTimeThreshold ≤ tx.lockTime ∧ (tx.lockTime.toNat : Int) < blockTime.toInt) := by
  rw [isFinalizedTransaction] at isFinal
  split_ifs at isFinal with isZero
  · exact .inl isZero
  refine .inr ?_
  have notMaxed : (tx.inputs.all fun input => input.sequence == maxTxInSequenceNum) = false := by
    rw [List.all_eq_false]
    exact ⟨input, mem, by simpa using notFinal⟩
  rw [blockTimeOrBlueScore, notMaxed] at isFinal
  by_cases isScore : tx.lockTime < lockTimeThreshold
  · rw [if_pos isScore] at isFinal
    refine .inl ⟨isScore, ?_⟩
    by_contra notReached
    simp only [if_neg notReached] at isFinal
    cases isFinal
  · rw [if_neg isScore] at isFinal
    by_cases isNegative : blockTime < 0
    · rw [if_pos isNegative] at isFinal
      cases isFinal
    rw [if_neg isNegative] at isFinal
    refine .inr ⟨UInt64.not_lt.mp isScore, ?_⟩
    have nonneg := Int64.not_lt.mp isNegative
    have meets : tx.lockTime < blockTime.toUInt64 := by
      by_contra notReached
      simp only [if_neg notReached] at isFinal
      cases isFinal
    rw [UInt64.lt_iff_toNat_lt, Int64.toNat_toUInt64_of_le nonneg] at meets
    rw [Int64.toInt_eq_toNatClampNeg nonneg]
    exact Int.ofNat_lt.mpr meets

/-- A value that fits an `int64` is the same there. -/
theorem toInt_toInt64 {n : UInt64} (fits : n.toNat < 2 ^ 63) : n.toInt64.toInt = n.toNat := by
  rw [← Int64.toInt_toBitVec, UInt64.toBitVec_toInt64,
    BitVec.toInt_eq_toNat_of_lt (by rw [UInt64.toNat_toBitVec]; omega), UInt64.toNat_toBitVec]

/-- A round leaves a lock that is no earlier. -/
theorem lockInput_le (isOk : lockInput lock input = .ok lock') :
    lock.blockDAAScore ≤ lock'.blockDAAScore := by
  rw [lockInput] at isOk
  split at isOk
  · cases isOk
    exact Int64.le_refl _
  dsimp only at isOk
  split_ifs at isOk
  all_goals cases isOk
  · exact Int64.le_refl _
  · exact Int64.le_refl _
  · exact Int64.le_of_lt (by assumption)
  · exact Int64.le_refl _

theorem relativeLock_lt (sequence : UInt64) :
    (sequence &&& sequenceLockTimeMask).toNat < 2 ^ 32 := by
  exact lt_of_le_of_lt Nat.and_le_right (by decide)

variable {inputs : List TransactionInput}

/-- The loop over the inputs leaves a lock that is no earlier. -/
theorem foldlM_le (isOk : inputs.foldlM lockInput lock = .ok lock') :
    lock.blockDAAScore ≤ lock'.blockDAAScore := by
  induction inputs generalizing lock with
  | nil =>
    cases isOk
    exact Int64.le_refl _
  | cons input rest ih =>
    rcases ok_of_bind isOk with ⟨_, first, others⟩
    exact Int64.le_trans (lockInput_le first) (ih others)

section Locks

variable (isEntry : input.utxoEntry = some entry)
  (enabled : input.sequence &&& sequenceLockTimeDisabled = 0)
  (small : entry.blockDAAScore.toNat < 2 ^ 62)

include isEntry enabled small

/-- A round locks its input until the relative lock has passed. -/
theorem lockInput_locks (isOk : lockInput lock input = .ok lock') :
    (entry.blockDAAScore.toNat : Int) + (input.sequence &&& sequenceLockTimeMask).toNat - 1 ≤
      lock'.blockDAAScore.toInt := by
  have relative := relativeLock_lt input.sequence
  have isScore : (entry.blockDAAScore.toInt64 +
      (input.sequence &&& sequenceLockTimeMask).toInt64 - 1).toInt =
      (entry.blockDAAScore.toNat : Int) + (input.sequence &&& sequenceLockTimeMask).toNat - 1 := by
    have isSum : (entry.blockDAAScore.toInt64 +
        (input.sequence &&& sequenceLockTimeMask).toInt64).toInt =
        (entry.blockDAAScore.toNat : Int) + (input.sequence &&& sequenceLockTimeMask).toNat := by
      rw [Int64.toInt_add, toInt_toInt64 (by omega),
        toInt_toInt64 (by omega), Int.bmod_eq_of_le (by omega) (by omega)]
    rw [Int64.toInt_sub, isSum, Int64.toInt_one, Int.bmod_eq_of_le (by omega) (by omega)]
  rw [← isScore, ← Int64.le_iff_toInt_le]
  have notLarge : ¬ maxInt64 < input.sequence &&& sequenceLockTimeMask := by
    rw [UInt64.lt_iff_toNat_lt]
    have isMax : maxInt64.toNat = 2 ^ 63 - 1 := rfl
    omega
  have accepted : entry.blockDAAScore ≠ unacceptedDAAScore := by
    rintro isUnaccepted
    rw [isUnaccepted] at small
    exact absurd small (by decide)
  have notLate : ¬ maxInt64 < entry.blockDAAScore := by
    rw [UInt64.lt_iff_toNat_lt]
    have isMax : maxInt64.toNat = 2 ^ 63 - 1 := rfl
    omega
  rw [lockInput, isEntry] at isOk
  dsimp only at isOk
  rw [if_neg notLarge, enabled, if_neg (by decide), if_neg accepted] at isOk
  split_ifs at isOk with isLater
  · cases isOk
    exact Int64.le_refl _
  · cases isOk
    exact Int64.not_lt.mp isLater

/-- The loop over the inputs locks each of them. -/
theorem foldlM_locks (mem : input ∈ inputs) (isOk : inputs.foldlM lockInput lock = .ok lock') :
    (entry.blockDAAScore.toNat : Int) + (input.sequence &&& sequenceLockTimeMask).toNat - 1 ≤
      lock'.blockDAAScore.toInt := by
  induction inputs generalizing lock with
  | nil => cases mem
  | cons first rest ih =>
    rcases ok_of_bind isOk with ⟨_, locked, others⟩
    rcases List.mem_cons.mp mem with rfl | later
    · have locks := lockInput_locks isEntry enabled small locked
      have later := Int64.le_iff_toInt_le.mp (foldlM_le others)
      exact Int.le_trans locks later
    · exact ih later others

/-- An active lock has passed for every input. -/
theorem sequenceLock_passed {povDAAScore : UInt64} (notCoinbase : tx.isCoinBase = false)
    (mem : input ∈ tx.inputs) (isOk : checkTransactionSequenceLock tx povDAAScore = .ok ()) :
    entry.blockDAAScore.toNat + (input.sequence &&& sequenceLockTimeMask).toNat ≤
      povDAAScore.toNat := by
  have relative := relativeLock_lt input.sequence
  have isMax : maxInt64.toNat = 2 ^ 63 - 1 := rfl
  rcases ok_of_bind isOk with ⟨_, calculated, checked⟩
  rw [calcTxSequenceLockFromReferencedUTXOEntries, notCoinbase] at calculated
  rcases ok_of_bind calculated with ⟨lock, looped, finished⟩
  have locks := foldlM_locks isEntry enabled small mem looped
  split_ifs at finished
  · cases finished
  cases finished
  have isActive : sequenceLockActive lock.blockDAAScore povDAAScore = true := by
    by_contra inactive
    rw [Bool.not_eq_true] at inactive
    rw [inactive] at checked
    cases checked
  rw [sequenceLockActive] at isActive
  split_ifs at isActive with isLate isEarly
  · rw [UInt64.lt_iff_toNat_lt] at isLate
    omega
  · rw [UInt64.lt_iff_toNat_lt] at isLate
    rw [Int64.le_iff_toInt_le, toInt_toInt64 (by omega)] at isEarly
    omega

end Locks

/-! ## Agreement -/

/--
An operand that a lock-time opcode accepts has been reached when the validator
accepts the transaction.
-/
theorem lockTimes_agree (primitives : Primitives)
    (scriptPubKey : ScriptPublicKey) (tx : Transaction) (txIdx : Int)
    (flags : ScriptFlags) (so : Element) (daaScore : UInt64) (time : Int64) :
    (Ran primitives scriptPubKey tx txIdx flags 0xb0 so →
      isFinalizedTransaction tx daaScore time = true → uint64Of so = 0 ∨
        (uint64Of so < lockTimeThreshold ∧ uint64Of so < daaScore) ∨
        (lockTimeThreshold ≤ uint64Of so ∧ ((uint64Of so).toNat : Int) < time.toInt)) ∧
    (Ran primitives scriptPubKey tx txIdx flags 0xb1 so →
      uint64Of so &&& sequenceLockTimeDisabled = 0 → tx.isCoinBase = false →
      checkTransactionSequenceLock tx daaScore = .ok () →
      ∀ input entry, tx.inputs[txIdx.toNat]? = some input →
        input.utxoEntry = some entry → entry.blockDAAScore.toNat < 2 ^ 62 →
        entry.blockDAAScore.toNat +
            (uint64Of so &&& sequenceLockTimeMask).toNat ≤ daaScore.toNat) := by
  constructor
  · intro ran isFinal
    rcases lockTimeMet_of_ran ran with ⟨le, sameSide, input, isInput, notFinal⟩
    have mem := List.mem_of_getElem? isInput
    have reached := lockTime_of_isFinalized isFinal mem notFinal
    have isZero : (0 : UInt64).toNat = 0 := rfl
    simp only [UInt64.le_iff_toNat_le, UInt64.lt_iff_toNat_lt,
      ← UInt64.toNat_inj] at le sameSide reached ⊢
    omega
  · intro ran enabled notCoinbase passes input entry isInput isEntry small
    rcases ran with ⟨isEngine, _, _, isValue, isExecuting, isTop, isOk⟩
    rw [settings_of_init isEngine] at isOk
    rcases called_of_executed isExecuting isOk with ⟨_, called⟩
    rw [callOpfunc, opfunc_of_lockTime.2 isValue] at called
    rcases met_of_called isTop (opcodeCheckSequenceVerify_yields enabled)
      called with ⟨_, isInput', inputEnabled, le⟩
    rw [isInput] at isInput'
    cases isInput'
    have passed := sequenceLock_passed isEntry inputEnabled small notCoinbase
      (List.mem_of_getElem? isInput) passes
    rw [UInt64.le_iff_toNat_le] at le
    omega

/-- A script that pushes 5 and then runs the opcode. -/
def fiveThen (opcode : UInt8) : ScriptPublicKey := ⟨[0x55, opcode], 0, show 2 < 2 ^ 63 by decide⟩

/-- A spend of a coin of DAA score 10, with its sequence and lock time. -/
def lockedSpend (opcode : UInt8) (sequence lockTime : UInt64) : Transaction :=
  spending [0x51] sequence lockTime (some ⟨5, fiveThen opcode, 10, false⟩)

/-- Locks until a DAA score of 5, and for 5 after the coin. -/
theorem lockTimes_agree_five : (isFinalizedTransaction (lockedSpend 0xb0 0 7) 8 0 = true ∧
      uint64Of [5] < 8) ∧ checkTransactionSequenceLock (lockedSpend 0xb1 6 0) 20 = .ok () ∧
      10 + (uint64Of [5] &&& sequenceLockTimeMask).toNat ≤ 20 := by
  have isFinal : isFinalizedTransaction (lockedSpend 0xb0 0 7) 8 0 = true := by decide +kernel
  have passes : checkTransactionSequenceLock (lockedSpend 0xb1 6 0) 20 = .ok () := by decide +kernel
  have ranLockTime : Ran acceptingPrimitives (fiveThen 0xb0) (lockedSpend 0xb0 0 7) 0 0 0xb0 [5] :=
    ran_of_ranAfter 2 (by decide +kernel)
  have ranSequence : Ran acceptingPrimitives (fiveThen 0xb1) (lockedSpend 0xb1 6 0) 0 0 0xb1 [5] :=
    ran_of_ranAfter 2 (by decide +kernel)
  refine ⟨⟨isFinal, ?_⟩, passes, ?_⟩
  · rcases (lockTimes_agree _ _ _ _ _ _ 8 0).1 ranLockTime isFinal with
      isZero | below | above
    · exact absurd isZero (by decide +kernel)
    · exact below.2
    · exact absurd above.1 (by decide +kernel)
  · exact (lockTimes_agree _ _ _ _ _ _ 20 0).2 ranSequence
      (by decide +kernel) (by decide +kernel) passes _ _ rfl rfl (by decide +kernel)

/-- A spend of the coinbase subnetwork, which is not locked. -/
def coinbaseSpend : Transaction :=
  { lockedSpend 0xb1 6 0 with subnetworkID := subnetworkIDCoinbase }

/--
Sequence locks do not apply to a transaction of the coinbase subnetwork: with an
input it passes at a DAA score that its script does not allow.
-/
theorem coinbase_not_locked : Ran acceptingPrimitives (fiveThen 0xb1) coinbaseSpend 0 0 0xb1 [5] ∧
      uint64Of [5] &&& sequenceLockTimeDisabled = 0 ∧
      checkTransactionSequenceLock coinbaseSpend 3 = .ok () ∧
      ¬ 10 + (uint64Of [5] &&& sequenceLockTimeMask).toNat ≤ 3 := by
  refine ⟨ran_of_ranAfter 2 ?_, ?_, ?_, ?_⟩
  · decide +kernel
  · decide +kernel
  · decide +kernel
  · decide +kernel

end Htnd.TransactionValidator.LockTimeAgreement
