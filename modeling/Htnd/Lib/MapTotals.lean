import Htnd.Lib.RangeLoops

/-!
# Sums over a finite map

The sum of a weight over the entries of a finite map.  It depends on what the
map holds only, and it follows the setting and the deleting of a key.
-/

namespace Htnd.Lib.MapTotals

open RangeLoops List

universe u v

variable {κ : Type u} {ν : Type v} [DecidableEq κ]
  {source other : FiniteMap κ ν} {key : κ} {value : ν}

/-- Maps that hold the same list the same entries. -/
theorem perm_entries_of_lookup (same : ∀ key, source.lookup key = other.lookup key) :
    source.entries.Perm other.entries := by
  apply lookup_ext source.nodupKeys other.nodupKeys
  intro key _
  have equality : source.entries.dlookup key = other.entries.dlookup key := same key
  rw [equality]

/-- An entry stands for itself beside the others. -/
theorem perm_cons_erase (found : source.lookup key = some value) :
    source.entries.Perm (⟨key, value⟩ :: (source.erase key).entries) := by
  have restored : ∀ asked, source.lookup asked =
        ((source.erase key).insert key value).lookup asked := by
    intro asked
    rw [insert_ite, erase_ite]
    split_ifs with isKey
    · rw [isKey, found]
    · rfl
  have absent : key ∉ source.erase key := by
    rw [AList.mem_erase]
    exact fun mem => mem.1 rfl
  rw [← AList.entries_insert_of_notMem absent]
  exact perm_entries_of_lookup restored

/-- The sum of the weights of the entries. -/
def total (weight : κ → ν → Nat) (source : FiniteMap κ ν) : Nat :=
  (source.entries.map fun item => weight item.1 item.2).sum

variable (weight : κ → ν → Nat)

omit [DecidableEq κ] in
/-- The weights of the entries that meet a test. -/
theorem total_eq_sum_filter (test : κ → ν → Bool) (source : FiniteMap κ ν) :
    total (fun key value => if test key value then weight key value else 0) source =
    ((source.entries.filter fun item => test item.1 item.2).map fun item => weight item.1
    item.2).sum := by
  rw [total]
  induction source.entries with
  | nil => rfl
  | cons item rest ih =>
    rw [map_cons, sum_cons, ih, filter_cons]
    split_ifs
    · rw [map_cons, sum_cons]
    · rw [zero_add]

theorem total_congr (same : ∀ key, source.lookup key = other.lookup key) :
    total weight source = total weight other :=
  ((perm_entries_of_lookup same).map _).sum_eq

theorem total_erase (found : source.lookup key = some value) : total weight source =
    weight key value + total weight (source.erase key) := by
  rw [total, ((perm_cons_erase found).map _).sum_eq]
  rfl

theorem total_erase_absent (absent : source.lookup key = none) :
    total weight (source.erase key) = total weight source := by
  apply total_congr
  intro _
  rw [erase_ite]
  split_ifs with isKey
  · rw [isKey, absent]
  · rfl

theorem total_insert (source : FiniteMap κ ν) (key : κ) (value : ν) :
    total weight (source.insert key value) = weight key value + total weight
    (source.erase key) := by
  rw [total_erase weight (AList.lookup_insert source)]
  congr 1
  apply total_congr
  intro _
  rw [erase_ite, erase_ite, insert_ite]
  split_ifs
  · rfl
  · rfl

end Htnd.Lib.MapTotals
