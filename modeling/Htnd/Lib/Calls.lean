import Mathlib

/-!
# Calls that change a state and may fail

A call returns a value or fails, and leaves a state either way.  A call yields
a postcondition from a precondition if what it returns and the state it leaves
meet the postcondition and, where it fails, its error and the state it leaves
meet the condition for failures.  It ensures the postcondition if that condition
is about the state only, and keeps an invariant if it ensures it whether it
fails or not.
-/

namespace Htnd.Lib.Calls

universe u v

variable {σ ε α β : Type u}

/-- The outcome of a call in a state. -/
def outcome (call : ExceptT ε (StateM σ) α) (state : σ) : Except ε α × σ := call.run.run state

variable (call : ExceptT ε (StateM σ) α)

theorem outcome_bind (next : α → ExceptT ε (StateM σ) β) (state : σ) :
    outcome (call >>= next) state = match outcome call state with
      | (.ok value, state') => outcome (next value) state'
      | (.error error, state') => (.error error, state') := by
  simp only [outcome, ExceptT.run_bind, StateT.run_bind]
  generalize call.run.run state = result
  rcases result with ⟨_ | _, _⟩
  · rfl
  · rfl

@[simp]
theorem outcome_throw (error : ε) (state : σ) :
    outcome (throw error : ExceptT ε (StateM σ) α) state = (.error error, state) :=
  rfl

@[simp]
theorem outcome_get (state : σ) :
    outcome (get : ExceptT ε (StateM σ) σ) state = (.ok state, state) :=
  rfl

@[simp]
theorem outcome_modify (change : σ → σ) (state : σ) :
    outcome (modify change : ExceptT ε (StateM σ) PUnit) state = (.ok ⟨⟩, change state) :=
  rfl

theorem outcome_tryCatch (handler : ε → ExceptT ε (StateM σ) α) (state : σ) :
    outcome (tryCatch call handler) state = match outcome call state with
      | (.ok value, state') => (.ok value, state')
      | (.error error, state') => outcome (handler error) state' := by
  simp only [outcome, ExceptT.run_tryCatch, StateT.run_bind]
  generalize call.run.run state = result
  rcases result with ⟨_ | _, _⟩
  · rfl
  · rfl

/-- A call on a part of the state. -/
def zoom {τ : Type u} (part : σ → τ) (update : τ → σ → σ)
    (call : ExceptT ε (StateM τ) α) : ExceptT ε (StateM σ) α :=
  ExceptT.mk fun state =>
    let result := outcome call (part state)
    (result.1, update result.2 state)

theorem outcome_zoom {τ : Type u} (part : σ → τ) (update : τ → σ → σ)
    (call : ExceptT ε (StateM τ) α) (state : σ) : outcome (zoom part update call) state =
    ((outcome call (part state)).1, update (outcome call (part state)).2 state) :=
  rfl

/-- A computation that reads and changes no state. -/
def compute (computation : Except ε α) : ExceptT ε (StateM σ) α :=
  ExceptT.mk fun state => (computation, state)

theorem outcome_compute (run : Except ε α) (state : σ) :
    outcome (compute run) state = (run, state) :=
  rfl

theorem compute_ok (value : α) (next : α → ExceptT ε (StateM σ) β) :
    (compute (.ok value) >>= next) = next value :=
  rfl

theorem compute_error (error : ε) (next : α → ExceptT ε (StateM σ) β) :
    (compute (.error error) >>= next) = throw error :=
  rfl

/-! ## What a call yields -/

def Yields (pre : σ → Prop) (call : ExceptT ε (StateM σ) α)
    (post : α → σ → Prop) (fail : ε → σ → Prop) : Prop :=
  ∀ state, pre state →
    match outcome call state with
    | (.ok value, state') => post value state'
    | (.error error, state') => fail error state'

namespace Yields

variable {pre pre' : σ → Prop} {post post' : α → σ → Prop}
  {fail fail' : ε → σ → Prop} {call : ExceptT ε (StateM σ) α}

theorem imp (yields : Yields pre call post fail) (weaker : ∀ state, pre' state → pre state)
    (stronger : ∀ value state, post value state → post' value state)
    (failing : ∀ error state, fail error state → fail' error state) :
    Yields pre' call post' fail' := by
  intro state holds
  have before := yields state (weaker state holds)
  generalize outcome call state = result at before ⊢
  rcases result with ⟨error | value, state'⟩
  · exact failing error state' before
  · exact stronger value state' before

theorem and (yields : Yields pre call post fail) (yields' : Yields pre call post' fail') :
    Yields pre call (fun value state => post value state ∧ post' value state)
    (fun error state => fail error state ∧ fail' error state) := by
  intro state holds
  have both := And.intro (yields state holds) (yields' state holds)
  generalize outcome call state = result at both ⊢
  rcases result with ⟨error | value, _⟩
  · exact both
  · exact both

theorem by_state (yields : ∀ state, pre state →
      Yields (fun before => before = state) call post fail) : Yields pre call post fail :=
  fun state holds => yields state holds state rfl

theorem of_state {state : σ} (yields : Yields pre call post fail) (holds : pre state) :
    Yields (fun before => before = state) call post fail :=
  yields.imp (fun _ isState => isState ▸ holds) (fun _ _ => id) fun _ _ => id

theorem pure {value : α} (holds : ∀ state, pre state → post value state) :
    Yields pre (Pure.pure value : ExceptT ε (StateM σ) α) post fail :=
  holds

theorem throw {error : ε} (holds : ∀ state, pre state → fail error state) :
    Yields pre (MonadExcept.throw error : ExceptT ε (StateM σ) α) post fail :=
  holds

theorem bind {middle : α → σ → Prop} {next : α → ExceptT ε (StateM σ) β} {post : β → σ → Prop}
    (first : Yields pre call middle fail) (second : ∀ value, Yields (middle value)
    (next value) post fail) : Yields pre (call >>= next) post fail := by
  intro state holds
  have before := first state holds
  rw [outcome_bind]
  generalize outcome call state = result at before ⊢
  rcases result with ⟨_ | value, state'⟩
  · exact before
  · exact second value state' before

/-- What is read is the state itself. -/
theorem get {next : σ → ExceptT ε (StateM σ) α} (rest : ∀ read, pre read →
      Yields (fun state => state = read) (next read) post fail) :
    Yields pre (MonadState.get >>= next) post fail := by
  intro state holds
  exact rest state holds state rfl

/-- What follows a change starts in the changed state. -/
theorem after_modify {change : σ → σ} {next : PUnit → ExceptT ε (StateM σ) α}
    (rest : ∀ state, pre state → Yields (fun after => after = change state) (next ⟨⟩) post fail) :
    Yields pre (modify change >>= next) post fail := by
  intro state holds
  exact rest state holds (change state) rfl

theorem of_modify {change : σ → σ} {post : PUnit → σ → Prop} (holds : ∀ state, pre state →
    post ⟨⟩ (change state)) : Yields pre (modify change : ExceptT ε (StateM σ) PUnit) post fail :=
  holds

theorem zoom {τ : Type u} {part : σ → τ} {update : τ → σ → σ} {inner : ExceptT ε (StateM τ) α}
    (yields : ∀ state, pre state → Yields (fun before => before = part state) inner
    (fun value after => post value (update after state))
    (fun error after => fail error (update after state))) :
    Yields pre (Calls.zoom part update inner) post fail := by
  intro state holds
  have before := yields state holds (part state) rfl
  rw [outcome_zoom]
  generalize outcome inner (part state) = result at before ⊢
  rcases result with ⟨_ | _, _⟩
  · exact before
  · exact before

end Yields

/-! ## Conditions on the state only -/

/-- What a result and the state left with it meet. -/
def Meets (post : α → σ → Prop) (fail : σ → Prop) : Except ε α × σ → Prop
  | (.ok value, state) => post value state
  | (.error _, state) => fail state

def Ensures (pre : σ → Prop) (call : ExceptT ε (StateM σ) α)
    (post : α → σ → Prop) (fail : σ → Prop) : Prop :=
  ∀ state, pre state → Meets post fail (outcome call state)

def Keeps (invariant : σ → Prop) (call : ExceptT ε (StateM σ) α) : Prop :=
  Ensures invariant call (fun _ => invariant) invariant

variable {pre pre' : σ → Prop} {post post' : α → σ → Prop}
  {fail fail' invariant : σ → Prop} {call : ExceptT ε (StateM σ) α}

theorem ensures_iff : Ensures pre call post fail ↔ Yields pre call post fun _ => fail := by
  refine forall₂_congr fun state _ => ?_
  generalize outcome call state = result
  rcases result with ⟨_ | _, _⟩
  · rfl
  · rfl

namespace Ensures

section

variable (ensures : Ensures pre call post fail)

include ensures

theorem imp (weaker : ∀ state, pre' state → pre state)
    (stronger : ∀ value state, post value state → post' value state)
    (failing : ∀ state, fail state → fail' state) : Ensures pre' call post' fail' :=
  ensures_iff.mpr ((ensures_iff.mp ensures).imp weaker stronger fun _ => failing)

theorem post_imp (stronger : ∀ value state, post value state → post' value state) :
    Ensures pre call post' fail :=
  ensures.imp (fun _ holds => holds) stronger fun _ fails => fails

theorem fail_imp (failing : ∀ state, fail state → fail' state) : Ensures pre call post fail' :=
  ensures.imp (fun _ holds => holds) (fun _ _ holds => holds) failing

theorem of_state {state : σ} (holds : pre state) :
    Ensures (fun before => before = state) call post fail :=
  ensures.imp (fun _ isState => isState ▸ holds) (fun _ _ holds => holds) fun _ fails => fails

end

theorem by_state (ensures : ∀ state, pre state →
      Ensures (fun before => before = state) call post fail) : Ensures pre call post fail :=
  fun state holds => ensures state holds state rfl

/-- A call that does not fail meets any condition for failures. -/
theorem of_never (ensures : Ensures pre call post fun _ => False) : Ensures pre call post fail :=
  ensures.fail_imp fun _ => False.elim

/-- What holds of the state left by either outcome. -/
theorem outcome_snd {state : σ} (ensures : Ensures pre call (fun _ => invariant) invariant)
    (holds : pre state) : invariant (outcome call state).2 := by
  have meets := ensures state holds
  generalize outcome call state = result at meets ⊢
  rcases result with ⟨_ | _, _⟩
  · exact meets
  · exact meets

theorem pure {value : α} (holds : ∀ state, pre state → post value state) :
    Ensures pre (Pure.pure value : ExceptT ε (StateM σ) α) post fail :=
  holds

theorem throw {error : ε} (holds : ∀ state, pre state → fail state) :
    Ensures pre (MonadExcept.throw error : ExceptT ε (StateM σ) α) post fail :=
  holds

theorem bind {middle : α → σ → Prop} {next : α → ExceptT ε (StateM σ) β} {post : β → σ → Prop}
    (first : Ensures pre call middle fail) (second : ∀ value, Ensures (middle value)
    (next value) post fail) : Ensures pre (call >>= next) post fail :=
  ensures_iff.mpr ((ensures_iff.mp first).bind fun value => ensures_iff.mp (second value))

/-- What is read is the state itself. -/
theorem get {next : σ → ExceptT ε (StateM σ) α} (rest : ∀ read, pre read →
      Ensures (fun state => state = read) (next read) post fail) :
    Ensures pre (MonadState.get >>= next) post fail := by
  intro state holds
  exact rest state holds state rfl

theorem set {next : PUnit → ExceptT ε (StateM σ) α} {written : σ}
    (rest : Ensures (fun state => state = written) (next ⟨⟩) post fail) :
    Ensures pre (MonadState.set written >>= next) post fail := by
  intro state _
  exact rest written rfl

theorem of_modify {change : σ → σ} {post : PUnit → σ → Prop} (holds : ∀ state, pre state →
    post ⟨⟩ (change state)) : Ensures pre (modify change : ExceptT ε (StateM σ) PUnit) post fail :=
  holds

theorem tryCatch {handler : ε → ExceptT ε (StateM σ) α} {failed : σ → Prop}
    (first : Ensures pre call post failed)
    (second : ∀ error, Ensures failed (handler error) post fail) :
    Ensures pre (MonadExcept.tryCatch call handler) post fail := by
  intro state holds
  have before := first state holds
  have isOutcome := outcome_tryCatch call handler state
  rw [show outcome (MonadExcept.tryCatch call handler) state = _ from isOutcome]
  generalize outcome call state = result at before ⊢
  rcases result with ⟨error | _, state'⟩
  · exact second error state' before
  · exact before

end Ensures

end Htnd.Lib.Calls
