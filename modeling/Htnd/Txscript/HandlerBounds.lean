import Htnd.Txscript.Bounds
import Htnd.Txscript.Execution

/-!
# Handlers stay in bounds

No handler that the engine calls without the disabled opcodes panics, and none
leaves more than three items above what was on the stacks.  A handler counts
operations but never past the limit.
-/

namespace Htnd.Txscript.HandlerBounds

open Lib.Calls Utxo.Entry Script Stacks Handlers
open Bounds

/-- At least `base` operations are counted. -/
structure Bounded (base room : Nat) (vm : Machine) : Prop where
  data : ∀ so ∈ vm.dstack, Fits so
  alt : ∀ so ∈ vm.astack, Fits so
  depth : vm.dstack.length + vm.astack.length ≤ room
  base_le : base ≤ vm.numOps
  numOps_le : vm.numOps ≤ maxOpsPerScript

variable {base room growth : Nat} {vm : Machine} {α : Type} {value : α → Prop}

theorem Bounded.succ (bound : Bounded base room vm) : Bounded base (room + 1) vm :=
  { bound with depth := Nat.le_succ_of_le bound.depth }

theorem data_grows {call : StackCall α} (grows : Grows Sized growth call value) :
    Grows (Bounded base) growth (onData call) value := by
  intro room _
  refine .zoom fun vm bound => ?_
  have depth := bound.depth
  have sized : Sized (room - vm.astack.length) vm.dstack := ⟨bound.data, by omega⟩
  refine ((grows (room - vm.astack.length) (by omega)).of_state sized).imp
    (fun _ => id) ?_ fun _ _ => id
  rintro _ dstack ⟨holds, permitted, _⟩
  refine ⟨holds, { bound with data := permitted, depth := ?_ }⟩
  change dstack.length + vm.astack.length ≤ _
  omega

theorem onAlt_grows {call : StackCall α} (grows : Grows Sized growth call value) :
    Grows (Bounded base) growth (onAlt call) value := by
  intro room _
  refine .zoom fun vm bound => ?_
  have depth := bound.depth
  have sized : Sized (room - vm.dstack.length) vm.astack := ⟨bound.alt, by omega⟩
  refine ((grows (room - vm.dstack.length) (by omega)).of_state sized).imp
    (fun _ => id) ?_ fun _ _ => id
  rintro _ astack ⟨holds, permitted, _⟩
  refine ⟨holds, { bound with alt := permitted, depth := ?_ }⟩
  change vm.dstack.length + astack.length ≤ _
  omega

theorem scriptError_grows {code : ErrorCode} :
    Grows (Bounded base) growth (scriptError code) value :=
  Grows.throw (isError_script code)

/-- A test that returns an error or nothing. -/
theorem guard_grows {σ : Type} {bound : Nat → σ → Prop} {fails : Prop}
    [Decidable fails] {code : ErrorCode} :
    Grows bound 0 (if fails then scriptError code else pure ()) fun _ => ¬ fails := by
  split_ifs with isFailing
  · exact .throw (isError_script code)
  · exact .pure isFailing

/-! ## Control flow -/

theorem modify_condStack_grows {change : Machine → List Cond} :
    Grows (Bounded base) 0
      (modify fun vm => { vm with condStack := change vm }) fun _ => True :=
  fun _ _ => .of_modify fun _ bound => ⟨trivial, bound.data, bound.alt, bound.depth, bound.base_le,
    bound.numOps_le⟩

theorem popIfBool_grows : Grows (Bounded base) 0 popIfBool fun _ => True := by
  refine (data_grows popBytes_grows).andThen fun so _ => ?_
  rcases so with _ | ⟨byte, _ | ⟨_, _⟩⟩
  · exact .pure trivial
  · by_cases isOne : byte = 0x01
    · subst isOne
      exact .pure trivial
    · change Grows _ _ (if byte = 0x01 then _ else _) _
      rw [if_neg isOne]
      exact scriptError_grows
  · exact scriptError_grows

theorem beginConditional_grows (runsOn : Bool) :
    Grows (Bounded base) 0 (beginConditional runsOn) fun _ => True := by
  refine .get fun _ => ?_
  split_ifs
  · exact popIfBool_grows.andThen fun _ _ => modify_condStack_grows
  · exact modify_condStack_grows

theorem opcodeElse_grows : Grows (Bounded base) 0 opcodeElse fun _ => True := by
  intro _ _
  refine .get fun _ bound => ?_
  split
  · exact .throw fun _ _ => isError_script _
  · exact fun _ _ => ⟨trivial, { bound with }⟩
  · exact fun _ _ => ⟨trivial, { bound with }⟩
  · exact .pure fun _ isState => ⟨trivial, isState ▸ bound⟩

theorem opcodeEndif_grows : Grows (Bounded base) 0 opcodeEndif fun _ => True := by
  intro _ _
  refine .get fun _ bound => ?_
  split
  · exact .throw fun _ _ => isError_script _
  · exact fun _ _ => ⟨trivial, { bound with }⟩

theorem abstractVerify_grows (c : ErrorCode) :
    Grows (Bounded base) 0 (abstractVerify c) fun _ => True := by
  refine (data_grows popBool_grows).andThen fun _ _ => ?_
  exact guard_grows.imp fun _ _ => trivial

/-! ## Lock times -/

theorem verifyLockTime_grows (txLockTime lockTime : UInt64) :
    Grows (Bounded base) 0 (verifyLockTime txLockTime lockTime) fun _ => True :=
  guard_grows.imp fun _ _ => trivial

theorem popUint64_grows : Grows (Bounded base) 0 popUint64 fun _ => True := by
  refine (data_grows popBytes_grows).andThen fun _ _ => ?_
  split_ifs
  · exact scriptError_grows
  · exact .pure trivial

section Input

variable {settings : Settings} (inRange : settings.txIdx < settings.tx.inputs.length)

include inRange

theorem currentInput_grows : Grows (Bounded base) 0 (currentInput settings) fun _ => True := by
  rw [currentInput, index_ok inRange]
  exact .pure trivial

theorem opcodeCheckLockTimeVerify_grows :
    Grows (Bounded base) 0 (opcodeCheckLockTimeVerify settings) fun _ => True := by
  refine popUint64_grows.andThen fun _ _ => ?_
  refine (Grows.andThen guard_grows fun _ _ => verifyLockTime_grows _ _).andThen fun _ _ => ?_
  refine (currentInput_grows inRange).andThen fun _ _ => ?_
  exact guard_grows.imp fun _ _ => trivial

theorem opcodeCheckSequenceVerify_grows :
    Grows (Bounded base) 0 (opcodeCheckSequenceVerify settings) fun _ => True := by
  refine popUint64_grows.andThen fun _ _ => ?_
  split_ifs
  · exact .pure trivial
  refine (currentInput_grows inRange).andThen fun _ _ => ?_
  dsimp only
  split_ifs
  · exact scriptError_grows
  · exact verifyLockTime_grows _ _

end Input

/-! ## Arithmetic -/

theorem replaceNumber_grows {change : Int → Int} (fits : ∀ m, SmallNum m →
    (change m).natAbs < 2 ^ 63) : Grows (Bounded base) 1 (replaceNumber change) fun _ => True :=
  (data_grows popInt_grows).andThen fun m small => data_grows (pushInt_grows (fits m small))

theorem combineNumbers_grows {combine : Int → Int → Int}
    (fits : ∀ v0 v1, SmallNum v0 → SmallNum v1 → (combine v0 v1).natAbs < 2 ^ 63) :
    Grows (Bounded base) 1 (combineNumbers fun v0 v1 => .ok (combine v0 v1)) fun _ => True :=
  (data_grows popInt_grows).andThen fun v0 small0 => (data_grows popInt_grows).andThen
    fun v1 small1 => data_grows (pushInt_grows (fits v0 v1 small0 small1))

theorem compareNumbers_grows (test : Int → Int → Bool) :
    Grows (Bounded base) 1 (compareNumbers test) fun _ => True := by
  refine combineNumbers_grows fun _ _ _ _ => ?_
  split_ifs
  · decide
  · decide

/-- A sum or difference of two popped numbers does not wrap. -/
theorem wrap64_natAbs {n : Int} (fits : n.natAbs < 2 ^ 63) : (wrap64 n).natAbs < 2 ^ 63 := by
  rw [wrap64, Int.bmod_eq_of_le (by omega) (by omega)]
  exact fits

theorem within_grows : Grows (Bounded base) 1 opcodeWithin fun _ => True := by
  refine (data_grows popInt_grows).andThen fun _ _ => ?_
  refine (data_grows popInt_grows).andThen fun _ _ => ?_
  refine (data_grows popInt_grows).andThen fun x _ => ?_
  refine data_grows (pushInt_grows ?_)
  split_ifs
  · decide
  · decide

/-! ## Stack manipulation and hashes -/

theorem opcodeIfDup_grows : Grows (Bounded base) 1 opcodeIfDup fun _ => True := by
  refine (data_grows (peekBytes_grows 0)).andThen fun _ fits => ?_
  split_ifs
  · exact data_grows (pushBytes_grows fits)
  · exact (Grows.pure trivial).mono (fun _ _ => Bounded.succ) (by decide)

/-- The most bytes that an element has. -/
def maxElementSize : Nat := mldsa44SignatureSize + 1

theorem length_le_of_fits {so : Element} (fits : Fits so) : so.length ≤ maxElementSize := by
  rcases fits with short | isKeyOrSignature
  · exact le_trans short (by decide)
  rw [isMLDSA44ElementSize, Bool.or_eq_true, beq_iff_eq, beq_iff_eq] at isKeyOrSignature
  rcases isKeyOrSignature with isSize | isSize
  · rw [isSize]
    decide
  · rw [isSize]
    exact le_rfl

theorem opcodeSize_grows : Grows (Bounded base) 1 opcodeSize fun _ => True := by
  refine (data_grows (peekBytes_grows 0)).andThen fun _ fits => ?_
  exact data_grows (pushInt_grows (lt_of_le_of_lt (length_le_of_fits fits) (by decide)))

theorem opcodeEqual_grows : Grows (Bounded base) 1 opcodeEqual fun _ => True := by
  refine (data_grows popBytes_grows).andThen fun a _ => ?_
  refine (data_grows popBytes_grows).andThen fun b _ => ?_
  exact data_grows (pushBool_grows _)

theorem replaceByHash_grows (hash : List UInt8 → DomainHash) :
    Grows (Bounded base) 1 (replaceByHash hash) fun _ => True := by
  refine (data_grows popBytes_grows).andThen fun buf _ => ?_
  refine data_grows (pushBytes_grows (fits_of_le ?_))
  rw [(hash buf).length_eq]
  decide

end Htnd.Txscript.HandlerBounds
