import Mathlib

/-!
# Fallible computations

Taking a chain of fallible computations apart, and reading a result back from
what it evaluates to.
-/

namespace Htnd.Lib.Fallible

universe u

variable {ε α β : Type u}

variable {first : Except ε α}

/-- A result comes from a value that was found. -/
theorem ok_of_bind {next : α → Except ε β} {result : β} (isOk : (first >>= next) = .ok result) :
    ∃ value, first = .ok value ∧ next value = .ok result := by
  cases first with
  | error err => cases isOk
  | ok value => exact ⟨value, rfl, isOk⟩

/-- A computation goes on with the value that was found. -/
theorem ok_bind {value : α} (computed : first = .ok value)
    (next : α → Except ε β) : (first >>= next) = next value := by
  rw [computed]
  rfl

theorem of_toOption_eq {result : Except ε α} {value : α}
    (evaluates : result.toOption = some value) : result = .ok value := by
  cases result with
  | error err => cases evaluates
  | ok last =>
    cases evaluates
    rfl

theorem ok_of_toOption {next : α → Except ε β} {result : β}
    (evaluates : (first.toOption.bind fun value => (next value).toOption) = some result) : ∃ value,
    first = .ok value ∧ next value = .ok result := by
  rw [Option.bind_eq_some_iff] at evaluates
  rcases evaluates with ⟨value, computed, rest⟩
  exact ⟨value, of_toOption_eq computed, of_toOption_eq rest⟩

/-- A loop of checks succeeds if each check does. -/
theorem ok_of_forM {check : α → Except ε PUnit.{u + 1}} {items : List α}
    (isOk : items.forM check = .ok ⟨⟩) : ∀ item ∈ items, check item = .ok ⟨⟩ := by
  induction items with
  | nil => simp
  | cons item rest ih =>
    rcases ok_of_bind isOk with ⟨⟨⟩, first, isOk⟩
    exact List.forall_mem_cons.mpr ⟨first, ih isOk⟩

/--
A loop over a list succeeds if each round does and leads from what holds
before the remaining items to what holds after one of them.
-/
theorem foldlM_ok {step : β → α → Except ε β} (holds : List α → β → Prop)
    (round : ∀ item rest state, holds (item :: rest) state → ∃ next, step state item = .ok next ∧
    holds rest next) {items : List α} {state : β} (start : holds items state) : ∃ last,
    items.foldlM step state = .ok last ∧ holds [] last := by
  induction items generalizing state with
  | nil => exact ⟨state, rfl, start⟩
  | cons item rest ih =>
    rcases round item rest state start with ⟨next, stepped, remaining⟩
    rcases ih remaining with ⟨last, looped, done⟩
    refine ⟨last, ?_, done⟩
    rw [List.foldlM_cons, ok_bind stepped]
    exact looped

end Htnd.Lib.Fallible
