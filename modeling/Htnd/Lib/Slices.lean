import Mathlib

/-!
# Slices

Binary search for the first index that passes a test, slices kept in order by
such searches, and the removal that puts the last element in the place of the
removed one.
-/

namespace Htnd.Lib.Slices

open List

universe u

variable {α : Type u}

/-! ## Binary search -/

/-- The halving loop, with the number of rounds it may take. -/
def searchBetween (test : Nat → Bool) : Nat → Nat → Nat → Nat
  | 0, low, _ => low
  | rounds + 1, low, high =>
    if low < high then
      let middle := (low + high) / 2
      if test middle then searchBetween test rounds low middle
      else searchBetween test rounds (middle + 1) high
    else low

/-- The first of the indices below `count` that passes, else `count`. -/
def search (count : Nat) (test : Nat → Bool) : Nat := searchBetween test count 0 count

/-- The index splits the range into those that fail and those that pass. -/
structure Splits (test : Nat → Bool) (low high index : Nat) : Prop where
  low_le : low ≤ index
  le_high : index ≤ high
  fails : ∀ earlier, low ≤ earlier → earlier < index → test earlier = false
  passes : ∀ later, index ≤ later → later < high → test later = true

/-- The test is passed from some index on. -/
theorem searchBetween_splits {test : Nat → Bool} {low high : Nat}
    (monotone : ∀ first second, first ≤ second → second < high → test first = true →
    test second = true) (rounds : Nat) (ordered : low ≤ high) (enough : high ≤ low + rounds) :
    Splits test low high (searchBetween test rounds low high) := by
  fun_induction searchBetween test rounds low high with
  | case1 | case4 => exact ⟨le_refl _, ordered, by omega, by omega⟩
  | case2 rounds low high nonempty middle passes ih =>
    have upper : middle < high := by omega
    have found := ih (fun first second ordered below =>
      monotone first second ordered (lt_trans below upper)) (by omega) (by omega)
    refine ⟨found.low_le, le_trans found.le_high (le_of_lt upper), found.fails, ?_⟩
    intro later floor below
    by_cases inHalf : later < middle
    · exact found.passes later floor inHalf
    · exact monotone _ later (by omega) below passes
  | case3 rounds low high nonempty middle passes ih =>
    have upper : middle < high := by omega
    have found := ih monotone upper (by omega)
    have above := found.low_le
    refine ⟨by omega, found.le_high, ?_, found.passes⟩
    intro prior floor below
    by_cases inHalf : prior ≤ middle
    · by_contra isTrue
      rw [Bool.not_eq_false] at isTrue
      exact passes (monotone prior _ inHalf upper isTrue)
    · exact found.fails prior (by omega) below

/-! ## Slices in order -/

/-- The first index from which the elements are at least the given one. -/
def firstAtLeast (le : α → α → Bool) (slice : List α) (x : α) : Nat :=
  search slice.length fun i => (slice[i]?.map (le x)).getD false

section Sorted

variable {le : α → α → Bool} {slice : List α} {x : α}
  (sorted : slice.Pairwise fun a b => le a b = true)
  (trans : ∀ a b c, le a b = true → le b c = true → le a c = true)

include sorted trans

theorem firstAtLeast_splits : (∀ y ∈ slice.take (firstAtLeast le slice x), le x y = false) ∧
    ∀ y ∈ slice.drop (firstAtLeast le slice x), le x y = true := by
  have splits : Splits (fun i => (slice[i]?.map (le x)).getD false) 0
      slice.length (firstAtLeast le slice x) := by
    refine searchBetween_splits (fun _ _ ordered below passes => ?_)
      slice.length (Nat.zero_le slice.length) (by omega)
    have firstBelow := lt_of_le_of_lt ordered below
    rw [List.getElem?_eq_getElem firstBelow] at passes
    rw [List.getElem?_eq_getElem below]
    rcases Nat.eq_or_lt_of_le ordered with rfl | prior
    · exact passes
    · exact trans _ _ _ passes (pairwise_iff_getElem.mp sorted _ _ firstBelow below prior)
  constructor
  · intro y mem
    rcases mem_iff_getElem.mp mem with ⟨i, inRange, rfl⟩
    rw [length_take] at inRange
    have fails := splits.fails i (Nat.zero_le i) (by omega)
    rw [List.getElem?_eq_getElem (by omega)] at fails
    rw [getElem_take]
    exact fails
  · intro y mem
    rcases mem_iff_getElem.mp mem with ⟨i, inRange, rfl⟩
    rw [length_drop] at inRange
    have passes := splits.passes (firstAtLeast le slice x + i) (by omega) (by omega)
    rw [List.getElem?_eq_getElem (by omega)] at passes
    rw [getElem_drop]
    exact passes

/-- Inserting where the search ends keeps the order. -/
theorem sorted_insert (total : ∀ a b, le a b = true ∨ le b a = true) :
    (slice.take (firstAtLeast le slice x) ++ x :: slice.drop (firstAtLeast le slice x)).Pairwise
    fun a b => le a b = true := by
  rcases firstAtLeast_splits sorted trans (x := x) with ⟨fails, passes⟩
  rw [← take_append_drop (firstAtLeast le slice x) slice, pairwise_append] at sorted
  rcases sorted with ⟨front, back, across⟩
  rw [pairwise_append, pairwise_cons]
  refine ⟨front, ⟨passes, back⟩, ?_⟩
  intro y inFront z inRest
  rcases mem_cons.mp inRest with rfl | inBack
  · rcases total z y with passed | ordered
    · rw [fails y inFront] at passed
      cases passed
    · exact ordered
  · exact across y inFront z inBack

/-- The search for what an element equals ends at such an element. -/
theorem getElem?_firstAtLeast {z : α} (mem : z ∈ slice)
    (floor : le x z = true) (atMost : le z x = true) :
    ∃ y ∈ slice, slice[firstAtLeast le slice x]? = some y ∧ le x y = true ∧ le y x = true := by
  rcases firstAtLeast_splits sorted trans (x := x) with ⟨fails, passes⟩
  generalize firstAtLeast le slice x = index at *
  have inBack : z ∈ slice.drop index := by
    rw [← take_append_drop index slice, mem_append] at mem
    rcases mem with inFront | inBack
    · rw [fails z inFront] at floor
      cases floor
    · exact inBack
  have backSorted := sorted.sublist (drop_sublist index slice)
  rw [← List.head?_drop]
  cases back : slice.drop index with
  | nil =>
    rw [back] at inBack
    cases inBack
  | cons y rest =>
    rw [back] at inBack passes backSorted
    refine ⟨y, mem_of_mem_drop (back ▸ mem_cons_self), rfl, passes y mem_cons_self, ?_⟩
    rcases mem_cons.mp inBack with rfl | inRest
    · exact atMost
    · exact trans _ _ _ ((pairwise_cons.mp backSorted).1 z inRest) atMost

end Sorted

theorem perm_insert (slice : List α) (x : α) (index : Nat) :
    (slice.take index ++ x :: slice.drop index).Perm (x :: slice) := by
  refine perm_middle.trans ?_
  rw [take_append_drop]

/-! ## Removing by swapping -/

/-- Take out an element by putting the last one in its place. -/
def swapRemove (slice : List α) (index : Nat) : List α :=
  match slice.getLast? with
  | none => slice
  | some last => (slice.set index last).dropLast

theorem swapRemove_append (front back : List α) (x : α) :
    (x :: swapRemove (front ++ x :: back) front.length).Perm (front ++ x :: back) := by
  rcases eq_nil_or_concat' back with rfl | ⟨middle, last, rfl⟩
  · have gone : swapRemove (front ++ [x]) front.length = front := by
      simp [swapRemove]
    rw [gone]
    exact (perm_append_singleton x front).symm
  have gone : swapRemove (front ++ x :: (middle ++ [last]))
      front.length = front ++ last :: middle := by
    have isLast : (front ++ x :: (middle ++ [last])).getLast? = some last := by
      rw [← cons_append, ← append_assoc, List.getLast?_concat]
    have isSet : (front ++ x :: (middle ++ [last])).set front.length last =
        (front ++ last :: middle) ++ [last] := by simp
    rw [swapRemove, isLast]
    dsimp only
    rw [isSet, dropLast_concat]
  rw [gone]
  refine (List.Perm.cons x ?_).trans perm_middle.symm
  refine List.Perm.append_left front ?_
  exact (perm_append_singleton last middle).symm

theorem swapRemove_perm {slice : List α} {index : Nat} {x : α} (isAt : slice[index]? = some x) :
    (x :: swapRemove slice index).Perm slice := by
  rcases List.getElem?_eq_some_iff.mp isAt with ⟨_, rfl⟩
  have whole : slice = slice.take index ++ slice[index] :: slice.drop (index + 1) := by
    rw [← drop_eq_getElem_cons, take_append_drop]
  have atIndex : (slice.take index).length = index := by
    rw [length_take]
    omega
  have perm := swapRemove_append (slice.take index) (slice.drop (index + 1)) slice[index]
  rw [← whole, atIndex] at perm
  exact perm

end Htnd.Lib.Slices
