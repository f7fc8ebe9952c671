import Mathlib

/-!
# Matching two lists in order

The items of a list are matched with items of another one if an injection that
preserves the order relates each item to its image.  One pass that takes the
first item of the other list that fits, and never comes back, finds a matching
whenever there is one.
-/

namespace Htnd.Lib.GreedyMatching

open List

universe u v

variable {α : Type u} {β : Type v}

/-- An injection that preserves the order and relates items to their images. -/
def Matched (fits : α → β → Prop) (firsts : List α) (seconds : List β) : Prop :=
  ∃ image : Fin firsts.length → Fin seconds.length, StrictMono image ∧
    ∀ i, fits (firsts.get i) (seconds.get (image i))

section Matched

variable {fits : α → β → Prop} {firsts : List α} {seconds : List β}

theorem matched_iff_sublistForall₂ : Matched fits firsts seconds ↔
      List.SublistForall₂ fits firsts seconds := by
  rw [sublistForall₂_iff]
  constructor
  · rintro ⟨image, isMono, related⟩
    let chosen := List.ofFn fun i => seconds.get (image i)
    have lengthEq : firsts.length = chosen.length := (length_ofFn).symm
    refine ⟨chosen, ?_, ?_⟩
    · refine forall₂_iff_get.mpr ⟨lengthEq, ?_⟩
      intro i inFirsts _
      rw [get_ofFn]
      exact related ⟨i, inFirsts⟩
    · refine sublist_iff_exists_fin_orderEmbedding_get_eq.mpr
        ⟨OrderEmbedding.ofStrictMono (fun i => image (i.cast lengthEq.symm)) ?_, ?_⟩
      · exact fun i j isLess => isMono isLess
      · intro i
        rw [get_ofFn]
        rfl
  · rintro ⟨chosen, related, isSublist⟩
    obtain ⟨lengthEq, relates⟩ := forall₂_iff_get.mp related
    obtain ⟨embedding, isImage⟩ := sublist_iff_exists_fin_orderEmbedding_get_eq.mp isSublist
    refine ⟨fun i => embedding (i.cast lengthEq), ?_, fun i => ?_⟩
    · exact fun i j isLess => embedding.strictMono isLess
    · rw [← isImage]
      exact relates i i.isLt (lengthEq ▸ i.isLt)

theorem length_le_of_sublistForall₂ (matched : List.SublistForall₂ fits firsts seconds) :
    firsts.length ≤ seconds.length := by
  obtain ⟨_, related, isSublist⟩ := sublistForall₂_iff.mp matched
  exact related.length_eq.trans_le isSublist.length_le

end Matched

def greedy (fits : α → β → Bool) : List α → List β → Bool
  | [], _ => true
  | _ :: _, [] => false
  | first :: firsts, second :: seconds =>
    if fits first second then greedy fits firsts seconds
    else greedy fits (first :: firsts) seconds

section Greedy

variable {fits : α → β → Bool} {firsts : List α} {seconds : List β}

/-- A matching can give the first item its first fitting image. -/
theorem sublistForall₂_of_cons {related : α → β → Prop} {first : α}
    (matched : List.SublistForall₂ related (first :: firsts) seconds) :
    List.SublistForall₂ related firsts seconds := by
  generalize isList : first :: firsts = list at matched
  induction matched with
  | nil => cases isList
  | cons _ rest =>
    cases isList
    exact rest.cons_right
  | cons_right _ ih => exact (ih isList).cons_right

theorem greedy_iff : greedy fits firsts seconds = true ↔
      Matched (fun first second => fits first second = true) firsts
        seconds := by
  rw [matched_iff_sublistForall₂]
  induction firsts, seconds using greedy.induct fits with
  | case1 seconds => exact iff_of_true (by rw [greedy]) .nil
  | case2 first firsts => exact iff_of_false Bool.false_ne_true nofun
  | case3 first firsts second seconds isFit ih =>
    rw [greedy, if_pos isFit, ih]
    constructor
    · exact fun rest => .cons isFit rest
    · intro matched
      cases matched with
      | cons _ rest => exact rest
      | cons_right rest => exact sublistForall₂_of_cons rest
  | case4 first firsts second seconds noFit ih =>
    rw [greedy, if_neg noFit, ih]
    constructor
    · exact fun rest => .cons_right rest
    · intro matched
      cases matched with
      | cons isFit _ => exact absurd isFit noFit
      | cons_right rest => exact rest

theorem greedy_of_longer (isLonger : seconds.length < firsts.length) :
    greedy fits firsts seconds = false := by
  rw [← Bool.not_eq_true, greedy_iff, matched_iff_sublistForall₂]
  exact fun matched => not_lt.mpr (length_le_of_sublistForall₂ matched) isLonger

end Greedy

end Htnd.Lib.GreedyMatching
