import Htnd.Lib.Fallible
import Htnd.Txscript.Stacks

/-!
# Stack operations stay in bounds

An element of a stack has at most the size of a script element or one of the two
sizes of ML-DSA-44.  A call grows a stack by a number of items if it leaves no
more than that many above what was there, every item of a permitted size, and
fails with an error only.  As long as the depth fits 32 bits, no operation of a
stack panics, and neither does the encoding of a number that is not too large.
-/

namespace Htnd.Txscript.Bounds

open Lib.Calls Lib.Fallible Lib.LittleEndian Script Stacks List

/-! ## Calls that grow a state -/

/-- A failure that is an error the caller gets. -/
def IsError (failure : Failure) : Prop := failure ≠ .panicked ∧ failure ≠ .unfinished

theorem isError_script (code : ErrorCode) : IsError (.scriptError code) := ⟨nofun, nofun⟩

/--
A call grows a bounded state by an amount, if there is room for it, and returns
a value that meets a condition.
-/
def Grows {σ α : Type} (bounded : Nat → σ → Prop) (growth : Nat)
    (call : ExceptT Failure (StateM σ) α) (value : α → Prop) : Prop :=
  ∀ room : Nat, (room + growth : Nat) ≤ maxInt32 →
    Yields (bounded room) call (fun result state => value result ∧ bounded (room + growth) state)
    (fun failure _ => IsError failure)

namespace Grows

variable {σ α β : Type} {bounded : Nat → σ → Prop} {growth growth' : Nat}
  {call : ExceptT Failure (StateM σ) α} {value value' : α → Prop}

theorem imp (grows : Grows bounded growth call value)
    (stronger : ∀ result, value result → value' result) : Grows bounded growth call value' :=
  fun room fits => (grows room fits).imp (fun _ => id)
    (fun result _ holds => ⟨stronger result holds.1, holds.2⟩) fun _ _ => id

theorem pure {result : α} (holds : value result) : Grows bounded 0 (Pure.pure result) value :=
  fun _ _ => .pure fun _ bound => ⟨holds, bound⟩

theorem throw {fails : Failure} (isError : IsError fails) :
    Grows bounded growth (MonadExcept.throw fails) value :=
  fun _ _ => .throw fun _ _ => isError

theorem bind {next : α → ExceptT Failure (StateM σ) β} {last : β → Prop}
    (first : Grows bounded growth call value)
    (second : ∀ result, value result → Grows bounded growth' (next result) last) :
    Grows bounded (growth' + growth) (call >>= next) last := by
  intro room fits
  have firstFits : (room + growth : Nat) ≤ maxInt32 := by omega
  refine .bind (first room firstFits) fun result => ?_
  refine .by_state fun _ holds => ?_
  rw [add_comm growth', ← add_assoc] at fits ⊢
  exact (second result holds.1 (room + growth) fits).of_state holds.2

/-- A call that grows nothing, before another. -/
theorem andThen {next : α → ExceptT Failure (StateM σ) β} {last : β → Prop}
    (first : Grows bounded 0 call value) (second : ∀ result, value result →
    Grows bounded growth (next result) last) : Grows bounded growth (call >>= next) last :=
  first.bind second

/-- A computation without the state. -/
theorem compute {run : Except Failure α} (holds : ∀ result, run = .ok result → value result)
    (fails : ∀ failure, run = .error failure → IsError failure) :
    Grows bounded 0 (Htnd.Lib.Calls.compute run) value := by
  intro _ _ _ bound
  cases computed : run with
  | error failure => exact fails failure computed
  | ok result => exact ⟨holds result computed, bound⟩

theorem get {next : σ → ExceptT Failure (StateM σ) α}
    (rest : ∀ read, Grows bounded growth (next read) value) :
    Grows bounded growth (MonadState.get >>= next) value :=
  fun room fits => .get fun read bound => (rest read room fits).of_state bound

theorem mono (grows : Grows bounded growth call value) (weaker : ∀ room state, bounded room state →
    bounded (room + 1) state) (more : growth ≤ growth') : Grows bounded growth' call value := by
  intro room _
  have less : (room + growth : Nat) ≤ maxInt32 := by omega
  refine (grows room less).imp (fun _ => id) ?_ fun _ _ => id
  intro _ state holds
  refine ⟨holds.1, ?_⟩
  have climbs : ∀ extra, bounded (room + growth + extra) state := by
    intro extra
    induction extra with
    | zero => exact holds.2
    | succ extra ih => exact weaker _ state ih
  have isSum : room + growth' = room + growth + (growth' - growth) := by omega
  rw [isSum]
  exact climbs _

end Grows

/-! ## Stacks of permitted elements -/

/-- An element of a permitted size. -/
def Fits (so : Element) : Prop :=
  so.length ≤ maxScriptElementSize ∨ isMLDSA44ElementSize so.length = true

variable {so : Element} {stk : Stack}

theorem fits_of_le (small : so.length ≤ 33) : Fits so := Or.inl (le_trans small (by decide))

def Sized (room : Nat) (stk : Stack) : Prop := (∀ so ∈ stk, Fits so) ∧ stk.length ≤ room

/-! ## What each operation does -/

theorem index_ok {α : Type} {items : List α} {place : Nat} (inRange : place < items.length) :
    index items place = .ok items[place] := by
  rw [index, List.getElem?_eq_getElem inRange]

section Outcomes

variable {stk : Stack} (fits : (stk.length : Int) ≤ maxInt32)

include fits

theorem stackSize_ok : checkedStackSize stk.length = .ok (stk.length : Int) := by
  rw [checkedStackSize, if_neg (by omega)]

theorem outcome_depth : outcome depth stk = (.ok (stk.length : Int), stk) := by
  change (checkedStackSize stk.length, stk) = _
  rw [stackSize_ok fits]

theorem outcome_peekByteArray (idx : Int) : outcome (peekByteArray idx) stk =
      if 0 ≤ idx ∧ idx.toNat < stk.length then (index stk idx.toNat, stk)
      else (.error (.scriptError .invalidStackOperation), stk) := by
  change outcome (compute (checkedStackSize stk.length) >>= _) stk = _
  rw [outcome_bind, outcome_compute, stackSize_ok fits]
  by_cases inRange : 0 ≤ idx ∧ idx.toNat < stk.length
  · have notOut : ¬ (idx < 0 ∨ (stk.length : Int) ≤ idx) := by omega
    simp only [if_neg notOut, if_pos inRange]
    rfl
  · have isOut : idx < 0 ∨ (stk.length : Int) ≤ idx := by omega
    simp only [if_pos isOut, if_neg inRange]
    rfl

theorem outcome_nipN (idx : Int) : outcome (nipN idx) stk =
      if 0 ≤ idx ∧ idx.toNat < stk.length then
        (index stk idx.toNat, stk.eraseIdx idx.toNat)
      else (.error (.scriptError .invalidStackOperation), stk) := by
  change outcome (compute (checkedStackSize stk.length) >>= _) stk = _
  rw [outcome_bind, outcome_compute, stackSize_ok fits]
  by_cases inRange : 0 ≤ idx ∧ idx.toNat < stk.length
  · have notOut : ¬ (idx < 0 ∨ (stk.length : Int) - 1 < idx) := by omega
    simp only [if_neg notOut, if_pos inRange]
    rw [index_ok inRange.2]
    rfl
  · have isOut : idx < 0 ∨ (stk.length : Int) - 1 < idx := by omega
    simp only [if_pos isOut, if_neg inRange]
    rfl

end Outcomes

theorem outcome_pop_nil : outcome popByteArray [] =
      (.error (.scriptError .invalidStackOperation), []) := by
  rw [popByteArray, outcome_nipN (by decide), if_neg (by simp)]

theorem outcome_pop_cons {rest : Stack} (fits : ((so :: rest).length : Int) ≤ maxInt32) :
    outcome popByteArray (so :: rest) = (.ok so, rest) := by
  rw [popByteArray, outcome_nipN fits]
  rfl

theorem stackSize_large {size : Nat} (large : ¬ (size : Int) ≤ maxInt32) :
    checkedStackSize size = .error .panicked := by
  rw [checkedStackSize, if_pos (by omega)]

/-- What is popped is the top of the stack. -/
theorem popByteArray_yields : Yields (fun before => before = stk) popByteArray
      (fun so rest => stk = so :: rest) (fun _ _ => True) := by
  rintro stk rfl
  cases stk with
  | nil =>
    rw [outcome_pop_nil]
    trivial
  | cons so rest =>
    by_cases fits : ((so :: rest).length : Int) ≤ maxInt32
    · rw [outcome_pop_cons fits]
    · have tooDeep := stackSize_large fits
      rw [popByteArray, nipN, outcome_bind, outcome_get]
      simp only [tooDeep, compute_error, outcome_throw]

theorem popInt_yields : Yields (fun before => before = stk) popInt (fun n rest => ∃ so,
      stk = so :: rest ∧ makeScriptNum so defaultScriptNumLen = .ok n) (fun _ _ => True) := by
  refine popByteArray_yields.bind fun so => ?_
  intro rest isTop
  cases number : makeScriptNum so defaultScriptNumLen with
  | error fails => trivial
  | ok n => exact ⟨so, isTop, number⟩

/-! ## How much each operation grows a stack -/

theorem Sized.fits {room growth : Nat} (sized : Sized room stk)
    (fits : (room + growth : Nat) ≤ maxInt32) : (stk.length : Int) ≤ maxInt32 := by
  have := sized.2
  omega

theorem depth_grows : Grows Sized 0 depth fun n => n.natAbs < 2 ^ 63 := by
  intro _ fits _ sized
  have small := sized.fits fits
  rw [outcome_depth small]
  rw [maxInt32] at small
  exact ⟨by omega, sized⟩

theorem pushBytes_grows (fits : Fits so) : Grows Sized 1 (pushByteArray so) fun _ => True := by
  intro _ _
  refine .of_modify fun _ sized => ⟨trivial, ?_, ?_⟩
  · exact forall_mem_cons.mpr ⟨fits, sized.1⟩
  · exact Nat.succ_le_succ sized.2

theorem peekBytes_grows (idx : Int) : Grows Sized 0 (peekByteArray idx) Fits := by
  intro _ fits stk sized
  rw [outcome_peekByteArray (sized.fits fits)]
  by_cases inRange : 0 ≤ idx ∧ idx.toNat < stk.length
  · rw [if_pos inRange, index_ok inRange.2]
    exact ⟨sized.1 _ (getElem_mem inRange.2), sized⟩
  · rw [if_neg inRange]
    exact isError_script _

theorem nipN_grows (idx : Int) : Grows Sized 0 (nipN idx) Fits := by
  intro _ fits stk sized
  rw [outcome_nipN (sized.fits fits)]
  by_cases inRange : 0 ≤ idx ∧ idx.toNat < stk.length
  · rw [if_pos inRange, index_ok inRange.2]
    refine ⟨sized.1 _ (getElem_mem inRange.2), ?_, ?_⟩
    · exact fun so mem => sized.1 so (mem_of_mem_eraseIdx mem)
    · exact le_trans (length_eraseIdx_le stk _) sized.2
  · rw [if_neg inRange]
    exact isError_script _

theorem popBytes_grows : Grows Sized 0 popByteArray Fits := nipN_grows 0

theorem popBool_grows : Grows Sized 0 popBool fun _ => True :=
  popBytes_grows.bind fun _ _ => .pure trivial

theorem tuck_grows : Grows Sized 3 tuck fun _ => True := by
  refine popBytes_grows.andThen fun _ fits2 => ?_
  refine popBytes_grows.andThen fun _ fits1 => ?_
  refine (pushBytes_grows fits2).bind fun _ _ => ?_
  refine (pushBytes_grows fits1).bind fun _ _ => ?_
  exact pushBytes_grows fits2

theorem countedLoop_grows {round : StackCall Unit} {growth : Nat}
    (grows : Grows Sized growth round fun _ => True) (n : Int) :
    Grows Sized (growth * n.toNat) (countedLoop n round) fun _ => True := by
  rw [countedLoop]
  split_ifs
  · exact .throw (isError_script _)
  · induction n.toNat with
    | zero => exact .pure trivial
    | succ count ih => exact grows.bind fun _ _ => ih

theorem dropN_grows (n : Int) : Grows Sized 0 (dropN n) fun _ => True := by
  have round : Grows Sized 0 (do let _ ← popByteArray) fun _ => True :=
    popBytes_grows.andThen fun _ _ => .pure trivial
  have loop := countedLoop_grows round n
  rw [Nat.zero_mul] at loop
  exact loop

/-- A loop that pushes an item in every round. -/
theorem pushLoop_grows {item : StackCall Element} (grows : Grows Sized 0 item Fits) (n : Int) :
    Grows Sized n.toNat (countedLoop n (item >>= pushByteArray)) fun _ => True := by
  have loop := countedLoop_grows (grows.andThen fun _ fits => pushBytes_grows fits) n
  rw [one_mul] at loop
  exact loop

theorem pickN_grows (n : Int) : Grows Sized 1 (pickN n) fun _ => True :=
  (peekBytes_grows n).andThen fun _ fits => pushBytes_grows fits

theorem rollN_grows (n : Int) : Grows Sized 1 (rollN n) fun _ => True :=
  (nipN_grows n).andThen fun _ fits => pushBytes_grows fits

/-! ## Dropping all items -/

theorem outcome_times_pop (fits : (stk.length : Int) ≤ maxInt32) :
    outcome (times (do let _ ← popByteArray) stk.length) stk = (.ok (), []) := by
  induction stk with
  | nil => rfl
  | cons so rest ih =>
    have restFits : (rest.length : Int) ≤ maxInt32 := by
      rw [length_cons] at fits
      omega
    rw [length_cons, times, outcome_bind, outcome_bind, outcome_pop_cons fits]
    exact ih restFits

theorem outcome_dropN_all (fits : (stk.length : Int) ≤ maxInt32) : outcome (dropN stk.length) stk =
      (if stk.length = 0 then .error (.scriptError .invalidStackOperation)
        else .ok (), []) := by
  rw [dropN, countedLoop]
  cases stk with
  | nil => rfl
  | cons so rest =>
    have notBelow : ¬ ((so :: rest).length : Int) < 1 := by
      rw [length_cons]
      omega
    rw [if_neg notBelow, Int.toNat_natCast, outcome_times_pop fits]
    rfl

theorem outcome_dropAll (fits : (stk.length : Int) ≤ maxInt32) :
    outcome dropAll stk = (.ok (), []) := by
  rw [dropAll, ignoringError, outcome_tryCatch, outcome_bind, outcome_depth fits]
  simp only [outcome_dropN_all fits]
  split_ifs
  · rfl
  · rfl

theorem outcome_setStack {stk data : Stack} (fits : (stk.length : Int) ≤ maxInt32) :
    outcome (setStack data) stk = (.ok (), data) := by
  rw [setStack, outcome_bind, outcome_dropAll fits]
  change ((.ok () : Except Failure Unit), data ++ []) = _
  rw [append_nil]

theorem outcome_getStack (fits : (stk.length : Int) ≤ maxInt32) :
    outcome getStack stk = (.ok stk, stk) := by
  rw [getStack, outcome_bind, outcome_depth fits]
  rfl

/-! ## Numbers -/

theorem magnitudeBytes_length_le (rounds : Nat) (n : Int) :
    (magnitudeBytes rounds n).length ≤ rounds := by
  induction rounds generalizing n with
  | zero => exact le_refl 0
  | succ rounds ih =>
    rw [magnitudeBytes]
    split_ifs
    · exact Nat.succ_le_succ (ih _)
    · exact Nat.zero_le _

theorem magnitudeBytes_ne_nil (rounds : Nat) {n : Int} (pos : 0 < n) :
    magnitudeBytes (rounds + 1) n ≠ [] := by
  rw [magnitudeBytes, if_pos pos]
  exact cons_ne_nil _ _

/-- A number that is not the least `int64` has at most nine bytes. -/
theorem bytesOf_ok {n : Int} (fits : n.natAbs < 2 ^ 63) :
    ∃ bytes, bytesOf n = .ok bytes ∧ bytes.length ≤ 9 := by
  rw [bytesOf]
  split_ifs with isZero
  · exact ⟨[], rfl, Nat.zero_le _⟩
  dsimp only
  generalize isMagnitude : (if decide (n < 0) = true then wrap64 (-n) else n) = magnitude
  have pos : 0 < magnitude := by
    rw [← isMagnitude, wrap64, Int.bmod_eq_of_le (by omega) (by omega)]
    split_ifs with negative
    · rw [decide_eq_true_eq] at negative
      omega
    · rw [decide_eq_true_eq] at negative
      omega
  have small := magnitudeBytes_length_le 8 magnitude
  have filled := length_pos_of_ne_nil (magnitudeBytes_ne_nil 7 pos)
  rw [ok_bind (index_ok (Nat.sub_lt filled Nat.one_pos))]
  split_ifs
  · exact ⟨_, rfl, by rw [length_append]; exact Nat.succ_le_succ small⟩
  · exact ⟨_, rfl, by rw [length_append]; exact Nat.succ_le_succ small⟩
  · refine ⟨_, rfl, ?_⟩
    rw [length_append, length_dropLast, length_singleton]
    omega
  · exact ⟨_, rfl, Nat.le_succ_of_le small⟩

theorem pushInt_grows {val : Int} (small : val.natAbs < 2 ^ 63) :
    Grows Sized 1 (pushInt val) fun _ => True := by
  rcases bytesOf_ok small with ⟨_, isBytes, _⟩
  refine .andThen (.compute ?_ ?_) fun _ fits => pushBytes_grows fits
  · intro _ isResult
    rw [isBytes] at isResult
    cases isResult
    exact fits_of_le (by omega)
  · intro _ isFailure
    rw [isBytes] at isFailure
    cases isFailure

theorem pushBool_grows (val : Bool) : Grows Sized 1 (pushBool val) fun _ => True := by
  refine pushBytes_grows (fits_of_le ?_)
  cases val with
  | false => decide
  | true => decide

/-- A number that was popped. -/
def SmallNum (n : Int) : Prop := n.natAbs < 2 ^ 33

theorem checkMinimalDataEncoding_result (v : List UInt8) : checkMinimalDataEncoding v = .ok () ∨
    checkMinimalDataEncoding v = .error (.scriptError .minimalData) := by
  rw [checkMinimalDataEncoding]
  by_cases empty : v.length = 0
  · rw [if_pos empty]
    exact .inl rfl
  rw [ok_bind (index_ok (by omega))]
  split_ifs with noMagnitude isSingle
  · exact .inr rfl
  · rw [ok_bind (index_ok (by omega))]
    split_ifs
    · exact .inr rfl
    · exact .inl rfl
  · exact .inl rfl

/-- A number of at most four bytes is small, and only errors are returned. -/
theorem makeScriptNum_result (v : List UInt8) : (∃ n, makeScriptNum v defaultScriptNumLen = .ok n ∧
    SmallNum n) ∨ ∃ code, makeScriptNum v defaultScriptNumLen = .error (.scriptError code) := by
  rw [makeScriptNum]
  by_cases tooLong : defaultScriptNumLen < v.length
  · rw [if_pos tooLong]
    exact .inr ⟨_, rfl⟩
  have short : v.length ≤ 4 := Nat.le_of_not_lt tooLong
  rw [if_neg tooLong, if_neg (by omega)]
  rcases checkMinimalDataEncoding_result v with minimal | minimal
  · rw [ok_bind minimal]
    by_cases empty : v.length = 0
    · rw [if_pos empty]
      exact Or.inl ⟨0, rfl, by rw [SmallNum]; decide⟩
    rw [ok_bind (index_ok (by omega))]
    have bound : decode v < 256 ^ 4 :=
      lt_of_lt_of_le (decode_lt v) (Nat.pow_le_pow_right (by decide) short)
    have signBit : 256 ^ (v.length - 1) ≤ 256 ^ 3 := Nat.pow_le_pow_right (by decide) (by omega)
    split_ifs
    · refine .inl ⟨_, rfl, ?_⟩
      have isPower : (256 : Int) ^ (v.length - 1) = ((256 ^ (v.length - 1) : Nat) : Int) := by rfl
      rw [isPower]
      generalize 256 ^ (v.length - 1) = power at signBit
      rw [SmallNum]
      omega
    · refine .inl ⟨_, rfl, ?_⟩
      rw [SmallNum]
      omega
  · rw [minimal]
    exact .inr ⟨_, rfl⟩

theorem popInt_grows : Grows Sized 0 popInt SmallNum := by
  refine popBytes_grows.andThen fun so _ => ?_
  rcases makeScriptNum_result so with ⟨n, made, small⟩ | ⟨code, fails⟩
  · rw [made]
    exact .pure small
  · rw [fails]
    exact .throw (isError_script code)

end Htnd.Txscript.Bounds
