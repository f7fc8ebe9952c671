import Htnd.Lib.Calls

/-!
# Calls that do not tell related states apart

A call is oblivious to what a relation of states does not tell apart if related
states give the same result and related states.  It need be so only where the
state it leaves is within some bounds; a call never comes back into the bounds,
so a chain of calls that ends within them was within them all along.
-/

namespace Htnd.Lib.ObliviousCalls

open Calls

universe u

variable {σ ε α β : Type u}

structure Oblivious (related : σ → σ → Prop) (within : σ → Prop)
    (call : ExceptT ε (StateM σ) α) : Prop where
  narrows : ∀ state, within (outcome call state).2 → within state
  agrees : ∀ state state', related state state' → within (outcome call state).2 →
    (outcome call state).1 = (outcome call state').1 ∧
    related (outcome call state).2 (outcome call state').2

namespace Oblivious

variable {related : σ → σ → Prop} {within : σ → Prop} {call : ExceptT ε (StateM σ) α}

theorem pure (value : α) : Oblivious related within (Pure.pure value : ExceptT ε (StateM σ) α) where
  narrows _ := id
  agrees _ _ linked _ := ⟨rfl, linked⟩

theorem throw (error : ε) : Oblivious related within
      (MonadExcept.throw error : ExceptT ε (StateM σ) α) where
  narrows _ := id
  agrees _ _ linked _ := ⟨rfl, linked⟩

theorem compute (run : Except ε α) : Oblivious related within
      (Calls.compute run : ExceptT ε (StateM σ) α) where
  narrows _ := id
  agrees _ _ linked _ := ⟨rfl, linked⟩

theorem bind {next : α → ExceptT ε (StateM σ) β} (first : Oblivious related within call)
    (second : ∀ value, Oblivious related within (next value)) :
    Oblivious related within (call >>= next) where
  narrows state inside := by
    refine first.narrows state ?_
    rw [outcome_bind] at inside
    generalize outcome call state = result at inside ⊢
    rcases result with ⟨error | value, state'⟩
    · exact inside
    · exact (second value).narrows state' inside
  agrees state state' linked inside := by
    have insideFirst : within (outcome call state).2 := by
      rw [outcome_bind] at inside
      generalize outcome call state = result at inside ⊢
      rcases result with ⟨error | value, after⟩
      · exact inside
      · exact (second value).narrows after inside
    have agree := first.agrees state state' linked insideFirst
    rw [outcome_bind] at inside ⊢
    rw [outcome_bind]
    generalize outcome call state = result at inside agree ⊢
    generalize outcome call state' = result' at agree ⊢
    rcases result with ⟨error | value, after⟩
    · rcases result' with ⟨error' | value', after'⟩
      · cases agree.1
        exact ⟨rfl, agree.2⟩
      · cases agree.1
    · rcases result' with ⟨error' | value', after'⟩
      · cases agree.1
      · cases agree.1
        exact (second value).agrees after after' agree.2 inside

/-- What follows a read depends on what related states have in common. -/
theorem get {next : σ → ExceptT ε (StateM σ) α} (same : ∀ state state', related state state' →
    next state = next state') (oblivious : ∀ state, Oblivious related within (next state)) :
    Oblivious related within (MonadState.get >>= next) where
  narrows state inside := (oblivious state).narrows state inside
  agrees state state' linked inside := by
    have agree := (oblivious state).agrees state state' linked inside
    change (outcome (next state) state).1 = (outcome (next state') state').1 ∧
      related (outcome (next state) state).2 (outcome (next state') state').2
    rw [← same state state' linked]
    exact agree

theorem modify {change : σ → σ} (narrows : ∀ state, within (change state) → within state)
    (keeps : ∀ state state', related state state' → related (change state) (change state')) :
    Oblivious related within (modify change : ExceptT ε (StateM σ) PUnit) where
  narrows := narrows
  agrees state state' linked _ := ⟨rfl, keeps state state' linked⟩

variable {τ : Type u} {part : σ → τ} {update : τ → σ → σ} {inner : ExceptT ε (StateM τ) α}

/-- A call on a part that it is oblivious to. -/
theorem zoom {relatedPart : τ → τ → Prop} {withinPart : τ → Prop}
    (oblivious : Oblivious relatedPart withinPart inner) (inside : ∀ state, within state ↔
    withinPart (part state)) (insideUpdate : ∀ value state, within (update value state) ↔
    withinPart value) (relates : ∀ state state', related state state' → relatedPart (part state)
    (part state')) (keeps : ∀ value value' state state', related state state' →
    relatedPart value value' → related (update value state) (update value' state')) :
    Oblivious related within (Calls.zoom part update inner) where
  narrows state within := by
    rw [inside]
    exact oblivious.narrows (part state) ((insideUpdate _ state).mp within)
  agrees state state' linked within := by
    have agree := oblivious.agrees (part state) (part state')
      (relates state state' linked) ((insideUpdate _ state).mp within)
    exact ⟨agree.1, keeps _ _ state state' linked agree.2⟩

end Oblivious

end Htnd.Lib.ObliviousCalls
