import Mathlib

/-!
# Maximal elements of a growing set

For a strict order, the elements of a set that come before no other of its
elements.  If every element is one of these or comes before one, an element that
is added has to be compared with the maximal ones only.  A set has the same
maximal elements as each of its subsets that is cofinal in it.
-/

namespace Htnd.Lib.Frontier

universe u

variable {α : Type u}

/-- The element comes before no other of the set. -/
def IsMaximal (before : α → α → Prop) (set : Set α) (element : α) : Prop :=
  element ∈ set ∧ ∀ other ∈ set, ¬ before element other

/-- Every element is a maximal one or comes before one. -/
def Dominated (before : α → α → Prop) (set : Set α) : Prop :=
  ∀ element ∈ set, ∃ top, IsMaximal before set top ∧ (element = top ∨ before element top)

variable {before : α → α → Prop} {set part : Set α} {element new : α}

theorem IsMaximal.not_before {other : α} (maximal : IsMaximal before set element)
    (otherMaximal : IsMaximal before set other) : ¬ before element other :=
  maximal.2 other otherMaximal.1

/-- Every set is dominated if elements are ranked, up to some rank. -/
theorem dominated_of_rank (rank : α → Nat) (bound : Nat)
    (transitive : ∀ {first second third}, before first second → before second third →
    before first third) (ranked : ∀ {first second}, before first second → rank first < rank second)
    (bounded : ∀ element, rank element ≤ bound) : Dominated before set := by
  suffices above : ∀ left element, element ∈ set → bound - rank element = left →
      ∃ top, IsMaximal before set top ∧ (element = top ∨ before element top) from
    fun element isIn => above _ element isIn rfl
  intro left
  induction left using Nat.strong_induction_on with
  | _ left ih =>
    intro element isIn _
    by_cases isTop : IsMaximal before set element
    · exact ⟨element, isTop, .inl rfl⟩
    have next : ∃ other ∈ set, before element other := by
      by_contra none
      exact isTop ⟨isIn, fun other otherIn isBefore => none ⟨other, otherIn, isBefore⟩⟩
    rcases next with ⟨other, otherIn, isBefore⟩
    have higher := ranked isBefore
    have notAbove := bounded other
    rcases ih (bound - rank other) (by omega) other otherIn rfl with ⟨top, isTop, same | isAbove⟩
    · exact ⟨top, isTop, .inr (same ▸ isBefore)⟩
    · exact ⟨top, isTop, .inr (transitive isBefore isAbove)⟩

section

variable (transitive : ∀ {first second third}, before first second →
    before second third → before first third)

include transitive

/-- The maximal elements after one more element. -/
theorem isMaximal_insert (irreflexive : ∀ element, ¬ before element element)
    (dominated : Dominated before set) : IsMaximal before (insert new set) element ↔
    (element = new ∧ ∀ top, IsMaximal before set top → ¬ before new top) ∨
    (element ≠ new ∧ IsMaximal before set element ∧ ¬ before element new) := by
  constructor
  · rintro ⟨isIn, isTop⟩
    by_cases isNew : element = new
    · refine .inl ⟨isNew, fun top topMaximal => ?_⟩
      rw [← isNew]
      exact isTop top (Set.mem_insert_of_mem _ topMaximal.1)
    · refine .inr ⟨isNew, ⟨Set.mem_of_mem_insert_of_ne isIn isNew, ?_⟩, ?_⟩
      · exact fun other otherIn => isTop other (Set.mem_insert_of_mem _ otherIn)
      · exact isTop new (Set.mem_insert new set)
  · rintro (⟨rfl, isTop⟩ | ⟨-, maximal, notBefore⟩)
    · refine ⟨Set.mem_insert element set, ?_⟩
      rintro other (rfl | otherIn) isBefore
      · exact irreflexive _ isBefore
      · rcases dominated other otherIn with ⟨top, topMaximal, same | isAbove⟩
        · exact isTop top topMaximal (same ▸ isBefore)
        · exact isTop top topMaximal (transitive isBefore isAbove)
    · refine ⟨Set.mem_insert_of_mem _ maximal.1, ?_⟩
      rintro other (rfl | otherIn)
      · exact notBefore
      · exact maximal.2 other otherIn

/-- A cofinal subset has the same maximal elements. -/
theorem isMaximal_of_cofinal (subset : part ⊆ set) (cofinal : ∀ element ∈ set,
      ∃ above ∈ part, element = above ∨ before element above) :
    IsMaximal before part element ↔ IsMaximal before set element := by
  constructor
  · rintro ⟨isIn, isTop⟩
    refine ⟨subset isIn, fun other otherIn isBefore => ?_⟩
    rcases cofinal other otherIn with ⟨above, aboveIn, same | isAbove⟩
    · exact isTop above aboveIn (same ▸ isBefore)
    · exact isTop above aboveIn (transitive isBefore isAbove)
  · rintro ⟨isIn, isTop⟩
    refine ⟨?_, fun other otherIn => isTop other (subset otherIn)⟩
    rcases cofinal element isIn with ⟨above, aboveIn, same | isAbove⟩
    · exact same ▸ aboveIn
    · exact absurd isAbove (isTop above (subset aboveIn))

end

end Htnd.Lib.Frontier
