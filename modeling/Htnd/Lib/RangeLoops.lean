import Mathlib

/-!
# Finite maps and range loops over them

A finite map is an association list without duplicate keys.  The order of
its entries stands for one iteration order of a hash map, so a result that
is stated through `lookup` holds for every such order.
-/

namespace Htnd.Lib.RangeLoops

open List

universe u v w

variable {κ : Type u} {ν : Type v} [DecidableEq κ]

/-- Finite maps from `κ` to `ν`. -/
abbrev FiniteMap (κ : Type u) (ν : Type v) := AList (fun _ : κ => ν)

theorem insert_ite (target : FiniteMap κ ν) (key other : κ) (value : ν) :
    (target.insert key value).lookup other =
      if other = key then some value else target.lookup other := by
  split_ifs with equality
  · subst equality
    exact AList.lookup_insert target
  · exact AList.lookup_insert_ne equality

theorem erase_ite (target : FiniteMap κ ν) (key other : κ) : (target.erase key).lookup other =
      if other = key then none else target.lookup other := by
  split_ifs with equality
  · subst equality
    exact AList.lookup_erase other target
  · exact AList.lookup_erase_ne equality

theorem mem_entries (source : FiniteMap κ ν) (item : (_ : κ) × ν) :
    item ∈ source.entries ↔ source.lookup item.1 = some item.2 :=
  (AList.mem_lookup_iff (s := source)).symm

/-- Every entry of the first map is one of the second. -/
def Submap (source target : FiniteMap κ ν) : Prop :=
  ∀ key value, source.lookup key = some value → target.lookup key = some value

namespace Submap

variable {first second third : FiniteMap κ ν} {key : κ}

theorem refl (source : FiniteMap κ ν) : Submap source source := fun _ _ => id

theorem trans (submap : Submap first second) (submap' : Submap second third) : Submap first third :=
  fun key value found => submap' key value (submap key value found)

theorem lookup_none (submap : Submap first second)
    (absent : second.lookup key = none) : first.lookup key = none := by
  cases found : first.lookup key with
  | none => rfl
  | some value =>
    rw [submap key value found] at absent
    cases absent

theorem erase (source : FiniteMap κ ν) (key : κ) : Submap (source.erase key) source := by
  intro _ _ found
  rw [erase_ite] at found
  split_ifs at found
  exact found

end Submap

theorem length_erase_lt {source : FiniteMap κ ν} {key : κ} {value : ν}
    (found : source.lookup key = some value) :
    (source.erase key).entries.length < source.entries.length := by
  have mem : key ∈ source.keys := by
    rw [← AList.mem_keys, ← AList.lookup_isSome, found]
    rfl
  have isKeys : (source.erase key).keys.length = source.keys.length - 1 := by
    rw [AList.keys_erase, length_erase_of_mem mem]
  have nonempty := length_pos_of_mem mem
  rw [AList.keys, List.keys, length_map] at isKeys nonempty
  rw [AList.keys, List.keys, length_map] at isKeys
  omega

/-! ## Setting and deleting the keys of a slice -/

theorem ite_mem_cons {α : Type*} (key other : κ) (keys : List κ) (a b : α) :
    (if key ∈ keys then a else if key = other then a else b) =
      if key ∈ other :: keys then a else b := by
  by_cases isRest : key ∈ keys
  · rw [if_pos isRest, if_pos (.tail other isRest)]
  · rw [if_neg isRest]
    simp only [mem_cons, isRest, or_false]

theorem lookup_foldl_insert (keys : List κ) (value : ν) (target : FiniteMap κ ν) (key : κ) :
    (keys.foldl (fun result other => result.insert other value) target).lookup key =
      if key ∈ keys then some value else target.lookup key := by
  induction keys generalizing target with
  | nil => simp
  | cons other keys ih => rw [foldl_cons, ih, insert_ite, ite_mem_cons]

theorem lookup_eraseEach (keys : List κ) (target : FiniteMap κ ν) (key : κ) :
    (keys.foldl (fun result other => result.erase other) target).lookup key =
      if key ∈ keys then none else target.lookup key := by
  induction keys generalizing target with
  | nil => simp
  | cons other keys ih => rw [foldl_cons, ih, erase_ite, ite_mem_cons]

/-! ## Copying the entries that meet a test -/

/-- Insert into `target` every entry of `source` that meets `test`. -/
def insertWhere (test : κ → ν → Bool) (source target : FiniteMap κ ν) : FiniteMap κ ν :=
  source.entries.foldl (fun result item =>
      if test item.1 item.2 then result.insert item.1 item.2 else result)
    target

variable (test : κ → ν → Bool) (source target : FiniteMap κ ν)

private theorem lookup_foldl_insertWhere (items : List ((_ : κ) × ν))
    (nodup : items.NodupKeys) (target : FiniteMap κ ν) (key : κ) : (items.foldl (fun result item =>
        if test item.1 item.2 then result.insert item.1 item.2 else result)
      target).lookup key =
      ((items.dlookup key).filter (test key)).or (target.lookup key) := by
  induction items generalizing target with
  | nil => rfl
  | cons item rest ih =>
    obtain ⟨itemKey, itemValue⟩ := item
    rw [nodupKeys_cons] at nodup
    rw [foldl_cons, ih nodup.2]
    by_cases equality : key = itemKey
    · subst equality
      have absent : rest.dlookup key = none := dlookup_eq_none.mpr nodup.1
      rw [absent]
      cases passes : test key itemValue <;> simp [passes, Option.filter]
    · have skipped : List.dlookup key ((⟨itemKey, itemValue⟩ : (_ : κ) × ν) :: rest) =
            List.dlookup key rest := dlookup_cons_ne rest ⟨itemKey, itemValue⟩ equality
      have kept : (if test itemKey itemValue = true then
            target.insert itemKey itemValue else target).lookup key =
            target.lookup key := by
        split_ifs
        · rw [AList.lookup_insert_ne equality]
        · rfl
      rw [skipped, kept]

theorem lookup_insertWhere (key : κ) : (insertWhere test source target).lookup key =
    ((source.lookup key).filter (test key)).or (target.lookup key) :=
  lookup_foldl_insertWhere test source.entries source.nodupKeys target key

/-! ## Deleting the keys of another map -/

/-- Delete from `target` every key of `source`. -/
def eraseKeys (source target : FiniteMap κ ν) : FiniteMap κ ν :=
  source.keys.foldl (fun result key => result.erase key) target

theorem lookup_eraseKeys (key : κ) : (eraseKeys source target).lookup key =
      if (source.lookup key).isSome then none else target.lookup key := by
  rw [eraseKeys, lookup_eraseEach]
  by_cases mem : key ∈ source
  · rw [if_pos (AList.lookup_isSome.mpr mem), if_pos (AList.mem_keys.mp mem)]
  · rw [if_neg (fun found => mem (AList.lookup_isSome.mp found)),
      if_neg (fun found => mem (AList.mem_keys.mpr found))]

/-! ## Searching for an entry -/

/-- The first key, in iteration order, whose entry meets `test`. -/
def findKey (test : κ → ν → Bool) (source : FiniteMap κ ν) : Option κ :=
  (source.entries.find? fun item => test item.1 item.2).map Sigma.fst

theorem findKey_eq_none (source : FiniteMap κ ν) : findKey test source = none ↔ ∀ key value,
    source.lookup key = some value → test key value = false := by
  rw [findKey, Option.map_eq_none_iff, List.find?_eq_none]
  constructor
  · intro fails key value found
    have mem : (⟨key, value⟩ : (_ : κ) × ν) ∈ source.entries :=
      (mem_entries source ⟨key, value⟩).mpr found
    exact Bool.eq_false_iff.mpr (fails _ mem)
  · intro fails item mem
    have found := (mem_entries source item).mp mem
    exact Bool.eq_false_iff.mp (fails item.1 item.2 found)

theorem lookup_of_findKey {test : κ → ν → Bool} {source : FiniteMap κ ν} {key : κ}
    (found : findKey test source = some key) :
    ∃ value, source.lookup key = some value ∧ test key value = true := by
  rw [findKey, Option.map_eq_some_iff] at found
  obtain ⟨item, search, rfl⟩ := found
  refine ⟨item.2, ?_, ?_⟩
  · exact (mem_entries source item).mp (mem_of_find?_eq_some search)
  · simpa using List.find?_some search

/-! ## Collecting what is found under its own key -/

section Collect

variable {α : Type w} {find : α → Option ν} {keyOf : ν → κ}
  {target : FiniteMap κ ν} {key : κ} {value : ν}

/-- Insert every value that is found for an item. -/
def collect (find : α → Option ν) (keyOf : ν → κ) (items : List α)
    (target : FiniteMap κ ν) : FiniteMap κ ν :=
  items.foldl (fun result item =>
      match find item with
      | some value => result.insert (keyOf value) value
      | none => result)
    target

theorem collect_cons (item : α) (items : List α) :
    collect find keyOf (item :: items) target = collect find keyOf items (match find item with
        | some value => target.insert (keyOf value) value
        | none => target) :=
  rfl

variable {items : List α}

theorem found_of_lookup_collect (found : (collect find keyOf items target).lookup key =
    some value) : target.lookup key = some value ∨ ∃ item ∈ items, find item = some value ∧
    keyOf value = key := by
  induction items generalizing target with
  | nil => exact .inl found
  | cons item items ih =>
    rw [collect_cons] at found
    rcases ih found with before | ⟨other, mem, isFound⟩
    · cases isValue : find item with
      | none =>
        rw [isValue] at before
        exact .inl before
      | some first =>
        rw [isValue] at before
        rw [insert_ite] at before
        split_ifs at before with isKey
        · cases before
          exact .inr ⟨item, .head _, isValue, isKey.symm⟩
        · exact .inl before
    · exact .inr ⟨other, .tail item mem, isFound⟩

theorem mem_collect_of_mem (isIn : key ∈ target) : key ∈ collect find keyOf items target := by
  induction items generalizing target with
  | nil => exact isIn
  | cons item items ih =>
    rw [collect_cons]
    apply ih
    split
    · exact (AList.mem_insert _).mpr (.inr isIn)
    · exact isIn

theorem mem_collect {item : α} (mem : item ∈ items) (isFound : find item = some value) :
    keyOf value ∈ collect find keyOf items target := by
  induction items generalizing target with
  | nil => cases mem
  | cons first items ih =>
    rw [collect_cons]
    rcases mem_cons.mp mem with rfl | isRest
    · apply mem_collect_of_mem
      rw [isFound]
      exact (AList.mem_insert _).mpr (.inl rfl)
    · exact ih isRest

end Collect

/-! ## Values held under a key of their own -/

/-- The map holds the value under the value's own key. -/
def HeldIn (source : FiniteMap κ ν) (keyOf : ν → κ) (value : ν) : Prop :=
  source.lookup (keyOf value) = some value

section HeldIn

variable {source : FiniteMap κ ν} {keyOf : ν → κ} {value other : ν}

theorem HeldIn.unique (held : HeldIn source keyOf value) (otherHeld : HeldIn source keyOf other)
    (sameKey : keyOf other = keyOf value) : other = value := by
  rw [HeldIn, sameKey] at otherHeld
  exact Option.some.inj (otherHeld.symm.trans held)

theorem heldIn_insert (isNew : source.lookup (keyOf value) = none) :
    HeldIn (source.insert (keyOf value) value) keyOf = fun other => other = value ∨
    HeldIn source keyOf other := by
  funext other
  rw [HeldIn, insert_ite, eq_iff_iff]
  split_ifs with sameKey
  · constructor
    · rintro ⟨⟩
      exact .inl rfl
    · rintro (rfl | held)
      · rfl
      · rw [HeldIn, sameKey, isNew] at held
        cases held
  · rw [HeldIn, or_iff_right]
    rintro rfl
    exact sameKey rfl

theorem heldIn_erase (held : HeldIn source keyOf value) :
    HeldIn (source.erase (keyOf value)) keyOf = fun other => HeldIn source keyOf other ∧
    other ≠ value := by
  funext other
  rw [HeldIn, erase_ite, eq_iff_iff]
  split_ifs with sameKey
  · constructor
    · rintro ⟨⟩
    · exact fun ⟨otherHeld, ne⟩ => absurd (held.unique otherHeld sameKey) ne
  · rw [HeldIn, and_iff_left]
    rintro rfl
    exact sameKey rfl

end HeldIn

/-! ## Indexing values by their keys -/

/-- The index finds at each key the held value that has the key. -/
def Indexes (index : FiniteMap κ ν) (Held : ν → Prop) (keysOf : ν → List κ) : Prop :=
  ∀ key value, index.lookup key = some value ↔ Held value ∧ key ∈ keysOf value

namespace Indexes

variable {index : FiniteMap κ ν} {Held : ν → Prop} {keysOf : ν → List κ} {value : ν}

theorem insertEach (indexes : Indexes index Held keysOf)
    (free : ∀ key ∈ keysOf value, index.lookup key = none) :
    Indexes ((keysOf value).foldl (fun result key => result.insert key value) index)
    (fun other => other = value ∨ Held other) keysOf := by
  intro key other
  rw [lookup_foldl_insert]
  split_ifs with isKey
  · constructor
    · rintro ⟨⟩
      exact ⟨.inl rfl, isKey⟩
    · rintro ⟨rfl | held, hasKey⟩
      · rfl
      · have found := (indexes key other).mpr ⟨held, hasKey⟩
        rw [free key isKey] at found
        cases found
  · rw [indexes key other]
    constructor
    · exact fun found => ⟨.inr found.1, found.2⟩
    · rintro ⟨rfl | held, hasKey⟩
      · exact absurd hasKey isKey
      · exact ⟨held, hasKey⟩

theorem eraseEach (indexes : Indexes index Held keysOf) (held : Held value) :
    Indexes ((keysOf value).foldl (fun result key => result.erase key) index)
    (fun other => Held other ∧ other ≠ value) keysOf := by
  intro key other
  rw [lookup_eraseEach]
  split_ifs with isKey
  · constructor
    · rintro ⟨⟩
    · rintro ⟨⟨otherHeld, ne⟩, hasKey⟩
      have found := (indexes key value).mpr ⟨held, isKey⟩
      rw [(indexes key other).mpr ⟨otherHeld, hasKey⟩] at found
      exact absurd (Option.some.inj found) ne
  · rw [indexes key other]
    constructor
    · rintro ⟨otherHeld, hasKey⟩
      refine ⟨⟨otherHeld, ?_⟩, hasKey⟩
      rintro rfl
      exact isKey hasKey
    · exact fun found => ⟨found.1.1, found.2⟩

end Indexes

end Htnd.Lib.RangeLoops
