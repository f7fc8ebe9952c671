import Htnd.Lib.RangeLoops

/-!
# Ordered key-value stores

A finite map whose keys are linearly ordered, read through a cursor that is
limited to a range of keys.  A cursor is moved to the first key of its range
that is not below a target.  For a target inside the range, comparing the key
reached with the target is the same as looking the target up.  Moved from its
first key to its last, a cursor lists the entries of its range.
-/

namespace Htnd.Lib.OrderedStore

open RangeLoops

universe u v

variable {κ : Type u} {ν : Type v} [LinearOrder κ]

/-- The half-open range of a cursor; a missing upper bound is no bound. -/
structure KeyRange (κ : Type u) where
  lower : κ
  upper : Option κ

namespace KeyRange

def Covers (range : KeyRange κ) (key : κ) : Prop :=
  range.lower ≤ key ∧ ∀ bound ∈ range.upper, key < bound

instance (range : KeyRange κ) : DecidablePred range.Covers :=
  fun key => inferInstanceAs (Decidable (range.lower ≤ key ∧ ∀ bound ∈ range.upper, key < bound))

end KeyRange

/-- The first key of the range that is not below the target. -/
def seek (store : FiniteMap κ ν) (range : KeyRange κ) (target : κ) : Option κ :=
  (store.keys.filter fun key => range.Covers key ∧ target ≤ key).min?

variable {store : FiniteMap κ ν}

/-- A target that is present and in range is reached. -/
theorem seek_of_present {range : KeyRange κ} {target : κ} (there : target ∈ store)
    (covered : range.Covers target) : seek store range target = some target := by
  rw [seek, List.min?_eq_some_iff]
  constructor
  · rw [List.mem_filter]
    exact ⟨AList.mem_keys.mp there, by simpa using covered⟩
  · intro _ candidate
    have meets := (List.mem_filter.mp candidate).2
    simp only [decide_eq_true_eq] at meets
    exact meets.2

/-- The entries of the range in ascending order of their keys. -/
def scan (store : FiniteMap κ ν) (range : KeyRange κ) : List ((_ : κ) × ν) :=
  (store.entries.filter fun item => range.Covers item.1).insertionSort
    fun first second => first.1 ≤ second.1

theorem scan_perm (store : FiniteMap κ ν) (range : KeyRange κ) :
    (scan store range).Perm (store.entries.filter fun item => range.Covers item.1) :=
  List.perm_insertionSort _ _

theorem mem_scan {range : KeyRange κ} {item : (_ : κ) × ν} :
    item ∈ scan store range ↔ item ∈ store.entries ∧ range.Covers item.1 := by
  rw [(scan_perm store range).mem_iff, List.mem_filter, decide_eq_true_eq]

theorem scan_nodup (store : FiniteMap κ ν) (range : KeyRange κ) : (scan store range).Nodup :=
  (scan_perm store range).nodup_iff.mpr (store.nodupKeys.nodup.filter _)

theorem scan_congr {store' : FiniteMap κ ν} {range : KeyRange κ}
    (same : ∀ item : (_ : κ) × ν, range.Covers item.1 →
    (item ∈ store.entries ↔ item ∈ store'.entries)) : scan store range = scan store' range := by
  refine List.Perm.eq_of_pairwise ?_ (List.pairwise_insertionSort _ _)
    (List.pairwise_insertionSort _ _) ?_
  · rintro ⟨key, value⟩ ⟨_, value'⟩ listed listed' atMost floor
    rw [mem_scan] at listed listed'
    rw [same _ listed.2] at listed
    cases le_antisymm atMost floor
    rw [store'.nodupKeys.eq_of_mk_mem listed.1 listed'.1]
  · rw [List.perm_ext_iff_of_nodup (scan_nodup ..) (scan_nodup ..)]
    intro item
    rw [mem_scan, mem_scan]
    exact and_congr_left (same item)

end Htnd.Lib.OrderedStore
