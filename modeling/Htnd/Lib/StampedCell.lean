import Mathlib

/-!
# Cells of a diff between two partial maps

A diff from one partial map to another is given key by key: a *cell* says
which value is taken out and which value is put in.  Values carry a stamp,
and the operations below recognise a value by its stamp alone, which is sound
only when the values that can meet at one key are told apart by their stamps.
-/

namespace Htnd.Lib.StampedCell

universe u v

variable {ν : Type u} {σ : Type v} [DecidableEq σ]

/-- What a diff does at one key. -/
@[ext]
structure Cell (ν : Type u) where
  add : Option ν
  remove : Option ν
deriving DecidableEq

namespace Cell

/-- The value at the key after the diff: an added value wins over a removal. -/
def apply (cell : Cell ν) (base : Option ν) : Option ν :=
  match cell.add, cell.remove with
  | some value, _ => some value
  | none, some _ => none
  | none, none => base

variable (base : Option ν)

@[simp]
theorem apply_add (value : ν) (remove base : Option ν) :
    (⟨some value, remove⟩ : Cell ν).apply base = some value :=
  rfl

@[simp]
theorem apply_remove (value : ν) (base : Option ν) :
    (⟨none, some value⟩ : Cell ν).apply base = none :=
  rfl

@[simp]
theorem apply_none : (⟨none, none⟩ : Cell ν).apply base = base := rfl

/-- The diff in the other direction. -/
def swap (cell : Cell ν) : Cell ν := ⟨cell.remove, cell.add⟩

/--
A cell is valid on a base value when it removes only the value that is there,
and adds only where nothing is there or the old value is removed.
-/
structure ValidOn (cell : Cell ν) (base : Option ν) : Prop where
  removed : ∀ value, cell.remove = some value → base = some value
  added : cell.add.isSome → base = none ∨ cell.remove.isSome

/-- The four shapes of a valid cell. -/
theorem ValidOn.shape {cell : Cell ν} {base : Option ν} (valid : cell.ValidOn base) :
    cell = ⟨none, none⟩ ∨ (base = none ∧ ∃ new, cell = ⟨some new, none⟩) ∨
    (∃ old, base = some old ∧ cell = ⟨none, some old⟩) ∨
    (∃ old new, base = some old ∧ cell = ⟨some new, some old⟩) := by
  rcases cell with ⟨add, remove⟩
  cases remove with
  | none =>
    cases add with
    | none => exact .inl rfl
    | some new =>
      have vacant : base = none := by simpa using valid.added rfl
      exact .inr (.inl ⟨vacant, new, rfl⟩)
  | some old =>
    have held : base = some old := valid.removed old rfl
    cases add with
    | none => exact .inr (.inr (.inl ⟨old, held, rfl⟩))
    | some new => exact .inr (.inr (.inr ⟨old, new, held, rfl⟩))

theorem validOn_none : (⟨none, none⟩ : Cell ν).ValidOn base := ⟨by simp, by simp⟩

theorem validOn_add (new : ν) : (⟨some new, none⟩ : Cell ν).ValidOn none := ⟨by simp, by simp⟩

theorem validOn_remove (old : ν) : (⟨none, some old⟩ : Cell ν).ValidOn (some old) :=
  ⟨by simp, by simp⟩

theorem validOn_replace (new old : ν) : (⟨some new, some old⟩ : Cell ν).ValidOn (some old) :=
  ⟨by simp, by simp⟩

/-- Reversing a valid cell takes the new value back to the old one. -/
theorem ValidOn.swap_valid {cell : Cell ν} {base : Option ν} (valid : cell.ValidOn base) :
    cell.swap.ValidOn (cell.apply base) ∧ cell.swap.apply (cell.apply base) = base := by
  rcases valid.shape with rfl | ⟨rfl, new, rfl⟩ | ⟨old, rfl, rfl⟩ | ⟨old, new, rfl, rfl⟩
  · exact ⟨validOn_none base, rfl⟩
  · exact ⟨validOn_remove new, rfl⟩
  · exact ⟨validOn_add old, rfl⟩
  · exact ⟨validOn_replace old new, rfl⟩

/-- Every value the cell mentions belongs to `values`. -/
def Within (values : Set ν) (cell : Cell ν) : Prop :=
  (∀ value, cell.add = some value → value ∈ values) ∧
    ∀ value, cell.remove = some value → value ∈ values

end Cell

/-! ## Operations that recognise values by their stamps -/

section Stamped

variable (stamp : ν → σ)

/-- Whether an optional value is present and carries the given stamp. -/
def holds (slot : Option ν) (mark : σ) : Bool := slot.any fun value => decide (stamp value = mark)

@[simp]
theorem holds_none (mark : σ) : holds stamp none mark = false := rfl

@[simp]
theorem holds_some (value : ν) (mark : σ) :
    holds stamp (some value) mark = decide (stamp value = mark) :=
  rfl

/-- Keep a value unless the other slot holds one with its stamp. -/
def unlessHeld (slot other : Option ν) : Option ν :=
  slot.filter fun value => !holds stamp other (stamp value)

@[simp]
theorem unlessHeld_none (other : Option ν) : unlessHeld stamp none other = none := rfl

theorem unlessHeld_eq_some (slot other : Option ν) (value : ν) : unlessHeld stamp slot other =
    some value ↔ slot = some value ∧ holds stamp other (stamp value) = false := by
  simp [unlessHeld]

@[simp]
theorem unlessHeld_some (value : ν) (other : Option ν) : unlessHeld stamp (some value) other =
      if holds stamp other (stamp value) then none else some value := by
  cases held : holds stamp other (stamp value) <;> simp [unlessHeld, held]

namespace Cell

/-- The removal of `other` done after `this`. -/
def mergeRemove (this other : Cell ν) : Cell ν :=
  match other.remove with
  | none => this
  | some value =>
    if holds stamp this.add (stamp value) then { this with add := none }
    else { this with remove := some value }

/-- The addition of `other` done after `this`. -/
def mergeAdd (this other : Cell ν) : Cell ν :=
  match other.add with
  | none => this
  | some value =>
    if holds stamp this.remove (stamp value) then
      { this with remove := none }
    else { this with add := some value }

/-- `this`, then `other`. -/
def merge (this other : Cell ν) : Cell ν := mergeAdd stamp (mergeRemove stamp this other) other

/-- The values at which `merge` reports a clash. -/
def MergeClash (this other : Cell ν) (first second : ν) : Prop :=
  (other.remove = some first ∧ this.remove = some second ∧ holds stamp this.add (stamp first) =
      false) ∨ (other.add = some first ∧ this.add = some second ∧
      holds stamp other.remove (stamp second) = false)

/-- The diff from `this` to `other`, both over one base. -/
def diff (this other : Cell ν) : Cell ν where
  add := (unlessHeld stamp other.add this.add).or (unlessHeld stamp this.remove other.remove)
  remove := (unlessHeld stamp other.remove this.remove).or (unlessHeld stamp this.add other.add)

/-- The values at which `diff` reports a clash. -/
def DiffClash (this other : Cell ν) (first second : ν) : Prop :=
  (this.remove = some first ∧ other.add = some second ∧
      ¬ (stamp second ≠ stamp first ∧ (holds stamp this.add (stamp second) = true ∨
      holds stamp other.remove (stamp first) = true))) ∨
      (this.add = some first ∧ other.remove = some second ∧
      ¬ (stamp second ≠ stamp first ∧ (holds stamp this.remove (stamp second) = true ∨
      holds stamp other.add (stamp first) = true))) ∨
      (this.remove = some first ∧ other.remove = some second ∧ stamp first ≠ stamp second) ∨
      (this.add = some first ∧ holds stamp other.add (stamp first) = true ∧
      ((this.remove = some second ∧ other.remove = none) ∨
      (this.remove = none ∧ other.remove = some second)))

/-- No value is put in and taken out under one stamp. -/
def Separated (cell : Cell ν) : Prop :=
  ∀ new old, cell.add = some new → cell.remove = some old → stamp new ≠ stamp old

/-! ## Composition of valid cells -/

variable (this : Cell ν)

@[simp]
theorem merge_none : merge stamp this ⟨none, none⟩ = this := rfl

@[simp]
theorem merge_add (new : ν) : merge stamp this ⟨some new, none⟩ =
      if holds stamp this.remove (stamp new) then ⟨this.add, none⟩
      else ⟨some new, this.remove⟩ :=
  rfl

@[simp]
theorem merge_remove (old : ν) : merge stamp this ⟨none, some old⟩ =
      if holds stamp this.add (stamp old) then ⟨none, this.remove⟩
      else ⟨this.add, some old⟩ :=
  rfl

/-- Replacing the value a cell adds leaves the removal to be looked at. -/
theorem merge_replace_added (new old : ν) (held : holds stamp this.add (stamp old) = true) :
    merge stamp this ⟨some new, some old⟩ =
      if holds stamp this.remove (stamp new) then ⟨none, none⟩
      else ⟨some new, this.remove⟩ := by
  simp [merge, mergeAdd, mergeRemove, held]

/-- Replacing a value the cell does not add records the removal. -/
theorem merge_replace_base (new old : ν) (notHeld : holds stamp this.add (stamp old) = false) :
    merge stamp this ⟨some new, some old⟩ =
      if stamp old = stamp new then ⟨this.add, none⟩
      else ⟨some new, some old⟩ := by
  simp [merge, mergeAdd, mergeRemove, notHeld]

section Coherent

variable {stamp} {values : Set ν} {base : Option ν} {this other : Cell ν}

/-- A valid successor never clashes with the cell before it. -/
theorem ValidOn.not_mergeClash (valid : this.ValidOn base)
    (valid' : other.ValidOn (this.apply base)) (first second : ν) :
    ¬ MergeClash stamp this other first second := by
  rintro (⟨gone, before, notHeld⟩ | ⟨added, before, notHeld⟩)
  · have view := valid'.removed first gone
    rcases this with ⟨_ | _, remove⟩
    · simp_all [apply]
    · simp_all
  · rcases this with ⟨_, remove⟩
    subst before
    rcases valid'.added (by simp [added]) with vacant | placed
    · simp at vacant
    · obtain ⟨value, removes⟩ := Option.isSome_iff_exists.mp placed
      have view := valid'.removed value removes
      simp_all

/--
Cells that are valid one after the other compose: the result is valid on the
first base and has the effect of both.
-/
theorem ValidOn.merge (coherent : Set.InjOn stamp values) (thisWithin : this.Within values)
    (otherWithin : other.Within values) (valid : this.ValidOn base)
    (valid' : other.ValidOn (this.apply base)) : (Cell.merge stamp this other).ValidOn base ∧
    (Cell.merge stamp this other).apply base = other.apply (this.apply base) := by
  have backToBase : ∀ old new, this.remove = some old ∨ other.remove = some old →
      other.add = some new → stamp old = stamp new → old = new := by
    intro old new removes adds same
    have oldWithin : old ∈ values := removes.elim (thisWithin.2 old) (otherWithin.2 old)
    exact coherent oldWithin (otherWithin.1 new adds) same
  rcases valid'.shape with rfl | ⟨vacant, next, rfl⟩ | ⟨held, there, rfl⟩ | ⟨held, next, there, rfl⟩
  · exact ⟨valid, rfl⟩
  · rcases valid.shape with rfl | ⟨rfl, new, rfl⟩ | ⟨old, rfl, rfl⟩ | ⟨old, new, rfl, rfl⟩
    · simp_all [validOn_add]
    · simp at vacant
    · by_cases same : stamp old = stamp next
      · obtain rfl := backToBase old next (.inl rfl) rfl same
        simp [validOn_none]
      · simp [same, validOn_replace]
    · simp at vacant
  · rcases valid.shape with rfl | ⟨rfl, new, rfl⟩ | ⟨old, rfl, rfl⟩ | ⟨old, new, rfl, rfl⟩
    · simp_all [validOn_remove]
    · simp_all [validOn_none]
    · simp at there
    · simp_all [validOn_remove]
  · rcases valid.shape with rfl | ⟨rfl, new, rfl⟩ | ⟨old, rfl, rfl⟩ | ⟨old, new, rfl, rfl⟩
    · obtain rfl : base = some held := there
      rw [merge_replace_base stamp _ _ _ rfl]
      by_cases same : stamp held = stamp next
      · obtain rfl := backToBase held next (.inr rfl) rfl same
        simp [validOn_none]
      · simp [same, validOn_replace]
    · obtain rfl : new = held := by simpa using there
      rw [merge_replace_added stamp _ _ _ (by simp)]
      simp [validOn_add]
    · simp at there
    · obtain rfl : new = held := by simpa using there
      rw [merge_replace_added stamp _ _ _ (by simp)]
      by_cases same : stamp old = stamp next
      · obtain rfl := backToBase old next (.inl rfl) rfl same
        simp [validOn_none]
      · simp [same, validOn_replace]

end Coherent

/-- Composition mentions no new value. -/
theorem Within.merge {values : Set ν} {this other : Cell ν} (thisWithin : this.Within values)
    (otherWithin : other.Within values) : (Cell.merge stamp this other).Within values := by
  have gone : (mergeRemove stamp this other).Within values := by
    unfold mergeRemove
    split
    · exact thisWithin
    · split_ifs
      · exact ⟨by simp, thisWithin.2⟩
      · exact ⟨thisWithin.1, by simp_all [Within]⟩
  unfold Cell.merge mergeAdd
  split
  · exact gone
  · split_ifs
    · exact ⟨gone.1, by simp⟩
    · exact ⟨by simp_all [Within], gone.2⟩

/-! ## The diff between two valid cells over one base -/

variable {cell : Cell ν}

/-- Starting from nothing, composing with a separated cell gives that cell. -/
theorem merge_none_left (sep : Separated stamp cell) : merge stamp ⟨none, none⟩ cell = cell := by
  rcases cell with ⟨_ | new, _ | old⟩
  · rfl
  · simp
  · simp
  · rw [merge_replace_base stamp _ _ _ rfl, if_neg (sep new old rfl rfl).symm]

theorem diff_none_left (cell : Cell ν) : diff stamp ⟨none, none⟩ cell = cell := by
  rcases cell with ⟨_ | _, _ | _⟩ <;> simp [diff]

section Diff

variable {stamp} {values : Set ν} {base : Option ν} {this other : Cell ν}

/-- Where a valid cell adds, what it removes is exactly the base value. -/
theorem ValidOn.remove_eq_base {cell : Cell ν} {new : ν}
    (valid : cell.ValidOn base) (added : cell.add = some new) : cell.remove = base := by
  cases removes : cell.remove with
  | some old => exact (valid.removed old removes).symm
  | none =>
    rcases valid.added (by simp [added]) with vacant | gone
    · exact vacant.symm
    · simp [removes] at gone

/-- Separated valid cells over one base never clash. -/
theorem ValidOn.not_diffClash (thisSep : Separated stamp this) (otherSep : Separated stamp other)
    (valid : this.ValidOn base) (valid' : other.ValidOn base) (first second : ν) :
    ¬ DiffClash stamp this other first second := by
  rintro (⟨gone, added, may⟩ | ⟨added, gone, may⟩ |
    ⟨gone, alsoRemoved, ne⟩ | ⟨added, held, removals⟩)
  · have base_eq := valid.removed first gone
    have placed := valid'.remove_eq_base added
    exact may ⟨otherSep second first added (placed.trans base_eq),
      Or.inr (by simp [placed, base_eq])⟩
  · have base_eq := valid'.removed second gone
    have placed := valid.remove_eq_base added
    have apart := thisSep first second added (placed.trans base_eq)
    exact may ⟨apart.symm, Or.inl (by simp [placed, base_eq])⟩
  · have same : some first = some second :=
      (valid.removed first gone).symm.trans (valid'.removed second alsoRemoved)
    exact ne (congrArg stamp (Option.some.inj same))
  · cases otherAdds : other.add with
    | none => simp [otherAdds] at held
    | some value =>
      have agree : this.remove = other.remove := (valid.remove_eq_base added).trans
        (valid'.remove_eq_base otherAdds).symm
      rcases removals with ⟨some', none'⟩ | ⟨none', some'⟩ <;> simp [some', none'] at agree

/--
Over one base, the diff between two separated valid cells is valid after the
first, leads to the second, and composes with the first to the second.
-/
theorem ValidOn.diff (coherent : Set.InjOn stamp values) (thisWithin : this.Within values)
    (otherWithin : other.Within values) (thisSep : Separated stamp this)
    (otherSep : Separated stamp other) (valid : this.ValidOn base) (valid' : other.ValidOn base) :
    (Cell.diff stamp this other).ValidOn (this.apply base) ∧
    (Cell.diff stamp this other).apply (this.apply base) = other.apply base ∧
    Cell.merge stamp this (Cell.diff stamp this other) = other := by
  have sameAdded : ∀ a b, this.add = some a → other.add = some b →
      stamp a = stamp b → a = b := fun a b first second same =>
    coherent (thisWithin.1 a first) (otherWithin.1 b second) same
  rcases valid.shape with rfl | ⟨rfl, a, rfl⟩ | ⟨old, rfl, rfl⟩ | ⟨old, a, rfl, rfl⟩
  · rw [diff_none_left]
    exact ⟨valid', rfl, merge_none_left stamp otherSep⟩
  · rcases valid'.shape with rfl | ⟨-, b, rfl⟩ | ⟨_, absurd', -⟩ | ⟨_, _, absurd', -⟩
    · simp [Cell.diff, validOn_remove]
    · by_cases same : stamp a = stamp b
      · obtain rfl := sameAdded a b rfl rfl same
        simp [Cell.diff, validOn_none]
      · have ne : stamp b ≠ stamp a := Ne.symm same
        simp [Cell.diff, validOn_replace, same, ne, merge_replace_added]
    · simp at absurd'
    · simp at absurd'
  · rcases valid'.shape with rfl | ⟨absurd', -⟩ | ⟨_, held, rfl⟩ | ⟨_, b, held, rfl⟩
    · simp [Cell.diff, validOn_add]
    · simp at absurd'
    · obtain rfl := Option.some.inj held
      simp [Cell.diff, validOn_none]
    · obtain rfl := Option.some.inj held
      have apart : stamp old ≠ stamp b := (otherSep b old rfl rfl).symm
      simp [Cell.diff, validOn_add, apart]
  · rcases valid'.shape with rfl | ⟨absurd', -⟩ | ⟨_, held, rfl⟩ | ⟨_, b, held, rfl⟩
    · simp [Cell.diff, validOn_replace, merge_replace_added]
    · simp at absurd'
    · obtain rfl := Option.some.inj held
      simp [Cell.diff, validOn_remove]
    obtain rfl := Option.some.inj held
    have apart : stamp old ≠ stamp b := (otherSep b old rfl rfl).symm
    by_cases same : stamp a = stamp b
    · obtain rfl := sameAdded a b rfl rfl same
      simp [Cell.diff, validOn_none]
    · have ne : stamp b ≠ stamp a := Ne.symm same
      simp [Cell.diff, validOn_replace, same, ne, merge_replace_added, apart]

end Diff

/-! ## Separation -/

omit [DecidableEq σ] in
theorem separated_none : Separated stamp (⟨none, none⟩ : Cell ν) := by
  simp [Separated]

omit [DecidableEq σ] in
theorem Separated.swap {stamp : ν → σ} (sep : Separated stamp cell) : Separated stamp cell.swap :=
  fun new old added gone => (sep old new gone added).symm

/-- Composition keeps the first cell separated, whatever the second is. -/
theorem Separated.merge {stamp : ν → σ} {this : Cell ν} (sep : Separated stamp this)
    (other : Cell ν) : Separated stamp (Cell.merge stamp this other) := by
  rcases other with ⟨_ | _, _ | gone⟩
  · exact sep
  · rw [merge_remove]
    split_ifs with held
    · simp [Separated]
    · intro new old added removed same
      obtain rfl := Option.some.inj removed
      exact held (by simp only at added; simp [added, same])
  · rw [merge_add]
    split_ifs with held
    · simp [Separated]
    · intro new old added removed same
      obtain rfl := Option.some.inj added
      exact held (by simp only at removed; simp [removed, same])
  · cases held : holds stamp this.add (stamp gone) with
    | true =>
      rw [merge_replace_added stamp _ _ _ held]
      split_ifs with kept
      · exact separated_none stamp
      · intro new old added removed same
        obtain rfl := Option.some.inj added
        exact kept (by simp only at removed; simp [removed, same])
    | false =>
      rw [merge_replace_base stamp _ _ _ held]
      split_ifs with same
      · simp [Separated]
      · intro new old added removed
        obtain rfl := Option.some.inj added
        obtain rfl := Option.some.inj removed
        exact Ne.symm same

/-- The diff of two separated cells is separated. -/
theorem Separated.diff {stamp : ν → σ} {this other : Cell ν} (thisSep : Separated stamp this)
    (otherSep : Separated stamp other) : Separated stamp (Cell.diff stamp this other) := by
  intro new old added gone same
  rcases Option.or_eq_some_iff.mp added with otherAdds | ⟨-, thisRemoves⟩
  · obtain ⟨otherAdds, notAdded⟩ := (unlessHeld_eq_some ..).mp otherAdds
    rcases Option.or_eq_some_iff.mp gone with otherRemoves | ⟨-, thisAdds⟩
    · obtain ⟨otherRemoves, -⟩ := (unlessHeld_eq_some ..).mp otherRemoves
      exact otherSep new old otherAdds otherRemoves same
    · obtain ⟨thisAdds, -⟩ := (unlessHeld_eq_some ..).mp thisAdds
      simp [thisAdds, same] at notAdded
  · obtain ⟨thisRemoves, kept⟩ := (unlessHeld_eq_some ..).mp thisRemoves
    rcases Option.or_eq_some_iff.mp gone with otherRemoves | ⟨-, thisAdds⟩
    · obtain ⟨otherRemoves, -⟩ := (unlessHeld_eq_some ..).mp otherRemoves
      simp [otherRemoves, same] at kept
    · obtain ⟨thisAdds, -⟩ := (unlessHeld_eq_some ..).mp thisAdds
      exact thisSep old new thisAdds thisRemoves same.symm

/-! ## The diff of a cell from itself -/

theorem diff_self (cell : Cell ν) : diff stamp cell cell = ⟨none, none⟩ := by
  rcases cell with ⟨_ | _, _ | _⟩ <;> simp [diff]

theorem Separated.not_diffClash_self {stamp : ν → σ}
    (sep : Separated stamp cell) (first second : ν) : ¬ DiffClash stamp cell cell first second := by
  rintro (⟨gone, added, may⟩ | ⟨added, gone, may⟩ | ⟨gone, alsoRemoved, ne⟩ | ⟨-, -, removals⟩)
  · exact may ⟨sep second first added gone, Or.inl (by simp [added])⟩
  · exact may ⟨(sep first second added gone).symm, Or.inl (by simp [gone])⟩
  · exact ne (congrArg stamp (Option.some.inj (gone.symm.trans alsoRemoved)))
  · rcases removals with ⟨some', none'⟩ | ⟨none', some'⟩ <;> simp [some'] at none'

end Cell

end Stamped

end Htnd.Lib.StampedCell
