import Htnd.UtxoIndex.Commit

/-!
# What an update stages and commits

The removed coins of a diff are staged first and the added ones after them.  A
coin that is removed and added with the same entry is staged in neither
place; every other coin of the diff is staged under its script.
-/

namespace Htnd.UtxoIndex.Staging

open Lib.RangeLoops Lib.Fallible Lib.StampedCell Utxo.Entry Utxo.MutableDiff
open Keys Store Coins Commit List

/-! ## Staged pairs -/

theorem pairsOf_insert (staged : StagedPairs) (key asked : ScriptPublicKeyString)
    (pairs : UTXOOutpointEntryPairs) : pairsOf (staged.insert key pairs) asked =
      if asked = key then pairs else pairsOf staged asked := by
  rw [pairsOf, insert_ite]
  split_ifs
  · rfl
  · rfl

theorem mem_stagedChanges {staged : StagedPairs} {change : StagedChange} :
    change ∈ stagedChanges staged ↔ (pairsOf staged change.key).lookup change.outpoint =
    some change.entry := by
  rw [stagedChanges, mem_flatMap]
  constructor
  · rintro ⟨_, isKey, mem⟩
    rw [mem_map] at mem
    rcases mem with ⟨_, isPair, rfl⟩
    rw [mem_entries] at isKey isPair
    rw [pairsOf, isKey]
    exact isPair
  · intro found
    rw [pairsOf] at found
    cases isKey : staged.lookup change.key with
    | none =>
      rw [isKey] at found
      cases found
    | some pairs =>
      rw [isKey] at found
      refine ⟨⟨change.key, pairs⟩, ?_, ?_⟩
      · exact (mem_entries staged ⟨change.key, pairs⟩).mpr isKey
      · rw [mem_map]
        exact ⟨⟨change.outpoint, change.entry⟩, (mem_entries pairs _).mpr found, rfl⟩

/-- A pair is staged for an outpoint that has none. -/
theorem stage_ok {fails : DomainOutpoint → IndexError} {staged : StagedPairs}
    {key : ScriptPublicKeyString} {point : DomainOutpoint}
    (absent : (pairsOf staged key).lookup point = none) (coin : UTXOEntry) : ∃ next,
    stage fails staged key point coin = .ok next ∧ ∀ askedKey asked,
    (pairsOf next askedKey).lookup asked =
        if askedKey = key ∧ asked = point then some coin
        else (pairsOf staged askedKey).lookup asked := by
  rw [stage, absent]
  refine ⟨_, rfl, ?_⟩
  intro askedKey asked
  rw [pairsOf_insert]
  by_cases isKey : askedKey = key
  · rw [if_pos isKey, insert_ite, isKey]
    simp only [true_and]
  · rw [if_neg isKey, if_neg (fun both => isKey both.1)]

/-- The staged entries for an outpoint after the given pairs are to come. -/
def filterStaged (entry : Option UTXOEntry) (key : ScriptPublicKeyString)
    (isStaged : UTXOEntry → Prop) [DecidablePred isStaged] : Option UTXOEntry :=
  entry.filter fun entry => stringOf entry.scriptPublicKey = key ∧ isStaged entry

/-- What the store has staged for a diff. -/
structure Stages (diff : UTXODiff) (uis : UtxoIndexStore) : Prop where
  toAdd : ∀ key outpoint, (pairsOf uis.toAdd key).lookup outpoint =
    filterStaged (diff.toAdd.lookup outpoint) key fun entry => diff.toRemove.lookup outpoint ≠ some
    entry
  toRemove : ∀ key outpoint, (pairsOf uis.toRemove key).lookup outpoint =
    filterStaged (diff.toRemove.lookup outpoint) key fun entry => diff.toAdd.lookup outpoint ≠ some
    entry

/-- Staging changes neither the database nor the virtual parents. -/
structure SameBase (uis next : UtxoIndexStore) : Prop where
  database : next.database = uis.database
  virtualParents : next.virtualParents = uis.virtualParents

variable {uis : UtxoIndexStore}

section FilterStaged

variable {entry : Option UTXOEntry} {key : ScriptPublicKeyString}
  {isStaged isStaged' : UTXOEntry → Prop} [DecidablePred isStaged] [DecidablePred isStaged']

theorem staged_eq_some {coin : UTXOEntry} : filterStaged entry key isStaged = some coin ↔
    entry = some coin ∧ stringOf coin.scriptPublicKey = key ∧ isStaged coin := by
  rw [filterStaged, Option.filter_eq_some_iff, decide_eq_true_eq]

theorem staged_eq_none (notStaged : ∀ coin, entry = some coin →
      ¬ isStaged coin) : filterStaged entry key isStaged = none := by
  rw [Option.eq_none_iff_forall_ne_some]
  intro coin found
  rw [staged_eq_some] at found
  exact notStaged coin found.1 found.2.2

theorem filterStaged_of_ne {held : UTXOEntry} (isHeld : entry = some held)
    (isIn : key ≠ stringOf held.scriptPublicKey) : filterStaged entry key isStaged = none := by
  rw [Option.eq_none_iff_forall_ne_some]
  intro coin found
  rw [staged_eq_some, isHeld] at found
  rcases found with ⟨isEntry, isKey, -⟩
  cases isEntry
  exact isIn isKey.symm

theorem staged_congr (same : ∀ coin, entry = some coin → (isStaged coin ↔ isStaged' coin)) :
    filterStaged entry key isStaged = filterStaged entry key isStaged' := by
  apply Option.ext
  intro coin
  rw [staged_eq_some, staged_eq_some]
  constructor
  · rintro ⟨isEntry, isKey, holds⟩
    exact ⟨isEntry, isKey, (same coin isEntry).mp holds⟩
  · rintro ⟨isEntry, isKey, holds⟩
    exact ⟨isEntry, isKey, (same coin isEntry).mpr holds⟩

end FilterStaged

/-! ## The two staging loops -/

/-- The removals of a diff are staged on top of nothing. -/
theorem removeUTXOs_ok (noAdditions : uis.toAdd = ∅) (noRemovals : uis.toRemove = ∅)
    (gone : UTXOCollection) : ∃ next, removeUTXOs uis gone = .ok next ∧ SameBase uis next ∧
      next.toAdd = ∅ ∧
      ∀ key point, (pairsOf next.toRemove key).lookup point =
        filterStaged (gone.lookup point) key fun _ => True := by
  let holds : List ((_ : DomainOutpoint) × UTXOEntry) → UtxoIndexStore →
      Prop := fun remaining state =>
    remaining.NodupKeys ∧ remaining ⊆ gone.entries ∧ SameBase uis state ∧ state.toAdd = ∅ ∧
      ∀ key point, (pairsOf state.toRemove key).lookup point = filterStaged (gone.lookup point) key
      fun _ => point ∉ remaining.keys
  have round : ∀ item rest state, holds (item :: rest) state →
      ∃ next, remove state item.2.scriptPublicKey item.1 item.2 = .ok next ∧ holds rest next := by
    rintro ⟨point, entry⟩ rest state ⟨nodup, areRemovals, sameBase, empty, staged⟩
    have isGone := (mem_entries gone ⟨point, entry⟩).mp (areRemovals (.head _))
    have absent : (pairsOf state.toRemove
        (stringOf entry.scriptPublicKey)).lookup point = none := by
      rw [staged]
      exact staged_eq_none fun _ _ notListed => notListed (.head _)
    rcases stage_ok absent entry with ⟨next, isStaged, written⟩
    have distinctRest := nodupKeys_cons.mp nodup
    refine ⟨{ state with toRemove := next }, ?_, distinctRest.2,
      subset_of_cons_subset areRemovals,
      ⟨sameBase.database, sameBase.virtualParents⟩, empty, ?_⟩
    · rw [remove]
      rw [empty, if_neg, isStaged]
      · rfl
      · nofun
    · intro key asked
      rw [written]
      split_ifs with isWritten
      · rw [isWritten.2]
        exact (staged_eq_some.mpr ⟨isGone, isWritten.1.symm, distinctRest.1⟩).symm
      rw [staged]
      by_cases isAsked : asked = point
      · apply Option.ext
        intro coin
        rw [staged_eq_some, staged_eq_some, isAsked, isGone]
        constructor
        · rintro ⟨-, -, notListed⟩
          exact absurd (.head _) notListed
        · rintro ⟨isEntry, isKey, -⟩
          cases isEntry
          exact absurd ⟨isKey.symm, isAsked⟩ isWritten
      · apply staged_congr
        intro coin _
        rw [keys_cons, mem_cons]
        simp only [isAsked, false_or]
  have begins : holds gone.entries uis := by
    refine ⟨gone.nodupKeys, List.Subset.refl _, ⟨rfl, rfl⟩, noAdditions, ?_⟩
    intro key point
    rw [noRemovals]
    refine (staged_eq_none ?_).symm
    intro coin isEntry notListed
    apply notListed
    rw [← AList.keys, ← AList.mem_keys, ← AList.lookup_isSome, isEntry]
    rfl
  rcases foldlM_ok holds round begins with ⟨last, looped, -, -, sameBase, empty, staged⟩
  refine ⟨last, looped, sameBase, empty, ?_⟩
  intro key point
  rw [staged]
  apply staged_congr
  intro coin _
  simp

theorem lookup_takeBack (staged : StagedPairs)
    (key asked : ScriptPublicKeyString) (point askedOutpoint : DomainOutpoint) :
    (pairsOf (staged.insert key ((pairsOf staged key).erase point)) asked).lookup askedOutpoint =
      if asked = key ∧ askedOutpoint = point then none
      else (pairsOf staged asked).lookup askedOutpoint := by
  rw [pairsOf_insert]
  by_cases isKey : asked = key
  · rw [if_pos isKey, erase_ite, isKey]
    simp only [true_and]
  · rw [if_neg isKey, if_neg (fun both => isKey both.1)]

/-- The state of the loop over the added coins of a diff. -/
structure Adding (uis : UtxoIndexStore) (diff : UTXODiff)
    (remaining : List ((_ : DomainOutpoint) × UTXOEntry)) (state : UtxoIndexStore) : Prop where
  distinct : remaining.NodupKeys
  areAdditions : remaining ⊆ diff.toAdd.entries
  sameBase : SameBase uis state
  toAdd : ∀ key outpoint, (pairsOf state.toAdd key).lookup outpoint =
    filterStaged (diff.toAdd.lookup outpoint) key fun entry => diff.toRemove.lookup outpoint ≠ some
    entry ∧ outpoint ∉ remaining.keys
  toRemove : ∀ key outpoint, (pairsOf state.toRemove key).lookup outpoint =
    filterStaged (diff.toRemove.lookup outpoint) key fun entry =>
    ¬ (diff.toAdd.lookup outpoint = some entry ∧ outpoint ∉ remaining.keys)

namespace Adding

variable {diff : UTXODiff} {point asked : DomainOutpoint}
  {entry : UTXOEntry} {rest : List ((_ : DomainOutpoint) × UTXOEntry)}
  {state : UtxoIndexStore} {key : ScriptPublicKeyString}

theorem not_mem_keys_cons (isIn : asked ≠ point) : asked ∉ (⟨point, entry⟩ :: rest :
        List ((_ : DomainOutpoint) × UTXOEntry)).keys ↔ asked ∉ rest.keys := by
  rw [keys_cons, mem_cons]
  simp only [isIn, false_or]

section Round

variable (adding : Adding uis diff (⟨point, entry⟩ :: rest) state)

include adding

theorem isAdded : diff.toAdd.lookup point = some entry :=
  (mem_entries diff.toAdd ⟨point, entry⟩).mp (adding.areAdditions (.head _))

theorem notListed : point ∉ rest.keys := (nodupKeys_cons.mp adding.distinct).1

/-- What is staged to add for another outpoint stays. -/
theorem toAdd_other (isIn : asked ≠ point) : (pairsOf state.toAdd key).lookup asked =
    filterStaged (diff.toAdd.lookup asked) key fun entry => diff.toRemove.lookup asked ≠ some
    entry ∧ asked ∉ rest.keys := by
  rw [adding.toAdd]
  apply staged_congr
  intro _ _
  rw [not_mem_keys_cons isIn]

/-- What is staged to remove for another outpoint stays. -/
theorem toRemove_other (isIn : asked ≠ point) : (pairsOf state.toRemove key).lookup asked =
    filterStaged (diff.toRemove.lookup asked) key fun entry =>
    ¬ (diff.toAdd.lookup asked = some entry ∧ asked ∉ rest.keys) := by
  rw [adding.toRemove]
  apply staged_congr
  intro _ _
  rw [not_mem_keys_cons isIn]

/-- A removal of the outpoint is still staged as the diff has it. -/
theorem toRemove_self : (pairsOf state.toRemove key).lookup point =
      filterStaged (diff.toRemove.lookup point) key fun _ => True := by
  rw [adding.toRemove]
  simp

/-- No addition of the outpoint is staged yet. -/
theorem toAdd_self : (pairsOf state.toAdd key).lookup point = none := by
  rw [adding.toAdd]
  exact staged_eq_none fun _ _ both => both.2 (.head _)

/-- The removal of the same coin is taken back. -/
theorem takeBack (isGone : diff.toRemove.lookup point = some entry) :
    Adding uis diff rest { state with
        toRemove := state.toRemove.insert (stringOf entry.scriptPublicKey)
          ((pairsOf state.toRemove (stringOf entry.scriptPublicKey)).erase point) } where
  distinct := (nodupKeys_cons.mp adding.distinct).2
  areAdditions := subset_of_cons_subset adding.areAdditions
  sameBase := ⟨adding.sameBase.database, adding.sameBase.virtualParents⟩
  toAdd key asked := by
    by_cases isAsked : asked = point
    · subst isAsked
      rw [adding.toAdd_self, adding.isAdded]
      refine (staged_eq_none ?_).symm
      intro coin isEntry both
      cases isEntry
      exact both.1 isGone
    · exact adding.toAdd_other isAsked
  toRemove key asked := by
    rw [lookup_takeBack]
    by_cases isAsked : asked = point
    · subst isAsked
      have none_staged : filterStaged (diff.toRemove.lookup asked) key
          (fun entry => ¬ (diff.toAdd.lookup asked = some entry ∧ asked ∉ rest.keys)) = none := by
        apply staged_eq_none
        intro coin isEntry holds
        rw [isGone] at isEntry
        cases isEntry
        exact holds ⟨adding.isAdded, adding.notListed⟩
      rw [none_staged]
      split_ifs with isWritten
      · rfl
      rw [adding.toRemove_self]
      exact filterStaged_of_ne isGone fun isKey => isWritten ⟨isKey, rfl⟩
    · rw [if_neg (fun both => isAsked both.2)]
      exact adding.toRemove_other isAsked

/-- Another coin is staged to be added. -/
theorem staged (kept : diff.toRemove.lookup point ≠ some entry) {next : StagedPairs}
    (written : ∀ askedKey asked, (pairsOf next askedKey).lookup asked =
      if askedKey = stringOf entry.scriptPublicKey ∧ asked = point then
        some entry else (pairsOf state.toAdd askedKey).lookup asked) :
    Adding uis diff rest { state with toAdd := next } where
  distinct := (nodupKeys_cons.mp adding.distinct).2
  areAdditions := subset_of_cons_subset adding.areAdditions
  sameBase := ⟨adding.sameBase.database, adding.sameBase.virtualParents⟩
  toAdd key asked := by
    rw [written]
    by_cases isAsked : asked = point
    · subst isAsked
      split_ifs with isWritten
      · exact (staged_eq_some.mpr ⟨adding.isAdded, isWritten.1.symm, kept, adding.notListed⟩).symm
      rw [adding.toAdd_self]
      exact (filterStaged_of_ne adding.isAdded fun isKey => isWritten ⟨isKey, rfl⟩).symm
    · rw [if_neg (fun both => isAsked both.2)]
      exact adding.toAdd_other isAsked
  toRemove key asked := by
    by_cases isAsked : asked = point
    · subst isAsked
      rw [adding.toRemove_self]
      apply staged_congr
      intro coin isEntry
      rw [true_iff, adding.isAdded]
      rintro ⟨same, -⟩
      rw [same] at kept
      exact kept isEntry
    · exact adding.toRemove_other isAsked

/-- One added coin is staged or cancelled. -/
theorem add_ok : ∃ next, add state entry.scriptPublicKey point entry = .ok next ∧
    Adding uis diff rest next := by
  rw [add]
  by_cases isGone : diff.toRemove.lookup point = some entry
  · rw [if_pos]
    · exact ⟨_, rfl, adding.takeBack isGone⟩
    · rw [adding.toRemove_self]
      exact staged_eq_some.mpr ⟨isGone, rfl, trivial⟩
  rw [if_neg]
  · rcases stage_ok adding.toAdd_self entry with ⟨next, isStaged, written⟩
    rw [isStaged]
    exact ⟨_, rfl, adding.staged isGone written⟩
  · rw [adding.toRemove_self, staged_eq_some]
    exact fun found => isGone found.1

end Round

end Adding

/-- What an update stages for a diff, on top of nothing. -/
theorem stageDiff_ok (noAdditions : uis.toAdd = ∅) (noRemovals : uis.toRemove = ∅)
    (diff : UTXODiff) : ∃ gone added, removeUTXOs uis diff.toRemove = .ok gone ∧
    addUTXOs gone diff.toAdd = .ok added ∧ SameBase uis added ∧ Stages diff added := by
  rcases removeUTXOs_ok noAdditions noRemovals diff.toRemove with
    ⟨gone, isGone, sameBase, empty, staged⟩
  have begins : Adding uis diff diff.toAdd.entries gone := by
    have listed : ∀ point coin, diff.toAdd.lookup point = some coin →
          point ∈ diff.toAdd.entries.keys := by
      intro point coin isEntry
      rw [← AList.keys, ← AList.mem_keys, ← AList.lookup_isSome, isEntry]
      rfl
    refine ⟨diff.toAdd.nodupKeys, List.Subset.refl _, sameBase, ?_, ?_⟩
    · intro key point
      rw [empty]
      refine (staged_eq_none ?_).symm
      intro coin isEntry both
      exact both.2 (listed point coin isEntry)
    · intro key point
      rw [staged]
      apply staged_congr
      intro coin _
      rw [true_iff]
      rintro ⟨isAdded, notListed⟩
      exact notListed (listed point coin isAdded)
  rcases foldlM_ok (Adding uis diff) (fun _ _ _ adding => adding.add_ok) begins with
    ⟨added, looped, adding⟩
  refine ⟨gone, added, isGone, looped, adding.sameBase, ?_, ?_⟩
  · intro key point
    rw [adding.toAdd]
    simp
  · intro key point
    rw [adding.toRemove]
    simp

/-! ## The coins after the two loops of a commit -/

section Loops

variable {virtual : UTXOCollection} {point : DomainOutpoint} {toAdd : StagedPairs}

theorem lookup_dropCoin {undo : StagedChange} {entry : UTXOEntry} :
    (dropCoin toAdd virtual undo).lookup point = some entry ↔ virtual.lookup point = some entry ∧
    ¬ (undo.outpoint = point ∧ entry.scriptPublicKey = scriptOf undo ∧
    (pairsOf toAdd undo.key).lookup point = none) := by
  rw [dropCoin]
  split_ifs with isReplaced
  · constructor
    · intro held
      refine ⟨held, ?_⟩
      rintro ⟨rfl, -, notReplaced⟩
      rw [notReplaced] at isReplaced
      cases isReplaced
    · exact fun both => both.1
  · rw [Option.not_isSome_iff_eq_none] at isReplaced
    split
    · rename_i missing
      constructor
      · intro held
        refine ⟨held, ?_⟩
        rintro ⟨rfl, isScript, -⟩
        rw [held, Option.filter_some, if_pos (decide_eq_true isScript)] at missing
        cases missing
      · exact fun both => both.1
    · rename_i old found
      rw [Option.filter_eq_some_iff, decide_eq_true_eq] at found
      rw [erase_ite]
      split_ifs with isOutpoint
      · constructor
        · intro held
          cases held
        · rintro ⟨held, kept⟩
          rw [isOutpoint, found.1] at held
          cases held
          rw [isOutpoint] at kept
          exact absurd ⟨rfl, found.2, isReplaced⟩ kept
      · constructor
        · exact fun held => ⟨held, fun all => isOutpoint all.1.symm⟩
        · exact fun both => both.1

/-- A coin stays unless a staged removal names its script and outpoint. -/
theorem lookup_foldl_dropCoin {removals : List StagedChange} {entry : UTXOEntry} :
    (removals.foldl (dropCoin toAdd) virtual).lookup point = some entry ↔ virtual.lookup point =
    some entry ∧ ∀ undo ∈ removals, ¬ (undo.outpoint = point ∧ entry.scriptPublicKey =
    scriptOf undo ∧ (pairsOf toAdd undo.key).lookup point = none) := by
  induction removals generalizing virtual with
  | nil => simp
  | cons undo rest ih => rw [foldl_cons, ih, lookup_dropCoin, forall_mem_cons, and_assoc]

theorem lookup_foldl_putCoin_of_mem {additions : List StagedChange}
    {entryFor : DomainOutpoint → Option UTXOEntry}
    (isEntry : ∀ added ∈ additions, entryFor added.outpoint = some added.entry)
    (staged : (∃ added ∈ additions, added.outpoint = point) ∨ virtual.lookup point =
    entryFor point) : (additions.foldl putCoin virtual).lookup point = entryFor point := by
  induction additions generalizing virtual with
  | nil =>
    rcases staged with ⟨added, mem, -⟩ | held
    · cases mem
    · exact held
  | cons added rest ih =>
    rw [forall_mem_cons] at isEntry
    apply ih isEntry.2
    rw [putCoin, insert_ite]
    by_cases isOutpoint : point = added.outpoint
    · right
      rw [if_pos isOutpoint, isOutpoint]
      exact isEntry.1.symm
    rcases staged with ⟨other, mem, isIn⟩ | held
    · rcases mem_cons.mp mem with rfl | mem
      · exact absurd isIn.symm isOutpoint
      · exact .inl ⟨other, mem, isIn⟩
    · right
      rw [if_neg isOutpoint, held]

theorem lookup_foldl_putCoin_of_not_mem {additions : List StagedChange}
    (notStaged : ∀ added ∈ additions, added.outpoint ≠ point) :
    (additions.foldl putCoin virtual).lookup point = virtual.lookup point := by
  induction additions generalizing virtual with
  | nil => rfl
  | cons added rest ih =>
    rw [forall_mem_cons] at notStaged
    rw [foldl_cons, ih notStaged.2, putCoin, insert_ite, if_neg (fun same => notStaged.1 same.symm)]

end Loops

/-! ## Committing a diff -/

def applyDiff (virtual : UTXOCollection) (diff : UTXODiff) : UTXOCollection :=
  insertWhere (fun _ _ => true) diff.toAdd (eraseKeys diff.toRemove virtual)

theorem lookup_applyDiff (virtual : UTXOCollection) (diff : UTXODiff) (point : DomainOutpoint) :
    (applyDiff virtual diff).lookup point = (diff.cell point).apply (virtual.lookup point) := by
  rw [applyDiff, lookup_insertWhere, lookup_eraseKeys, UTXODiff.cell,
    UTXOCollection.get, UTXOCollection.get]
  cases diff.toAdd.lookup point with
  | some added => simp [Cell.apply]
  | none =>
    cases diff.toRemove.lookup point with
    | some gone => simp [Cell.apply]
    | none => simp [Cell.apply]

/--
At every outpoint the diff is valid on the collection, or what it does there is
already done.
-/
def Applicable (diff : UTXODiff) (virtual : UTXOCollection) : Prop :=
  ∀ outpoint, (diff.cell outpoint).ValidOn (virtual.lookup outpoint) ∨
    (diff.cell outpoint).apply (virtual.lookup outpoint) = virtual.lookup outpoint

/-- The coins of a collection and those a diff names. -/
def coinsWith (virtual : UTXOCollection) (diff : UTXODiff) : CoinSet :=
  fun outpoint script => ∃ entry, entry.scriptPublicKey = script ∧
    (virtual.lookup outpoint = some entry ∨ diff.toAdd.lookup outpoint = some entry ∨
    diff.toRemove.lookup outpoint = some entry)

namespace Stages

variable {diff : UTXODiff} {virtual : UTXOCollection}
  {point : DomainOutpoint} {change : StagedChange} {entry : UTXOEntry} (stages : Stages diff uis)

include stages

theorem mem_additions : change ∈ stagedChanges uis.toAdd ↔ diff.toAdd.lookup change.outpoint =
      some change.entry ∧ stringOf change.entry.scriptPublicKey = change.key ∧
      diff.toRemove.lookup change.outpoint ≠ some change.entry := by
  rw [mem_stagedChanges, stages.toAdd, staged_eq_some]

theorem mem_removals : change ∈ stagedChanges uis.toRemove ↔ diff.toRemove.lookup change.outpoint =
      some change.entry ∧ stringOf change.entry.scriptPublicKey = change.key ∧
      diff.toAdd.lookup change.outpoint ≠ some change.entry := by
  rw [mem_stagedChanges, stages.toRemove, staged_eq_some]

/-- The coins after the loop over the removals. -/
theorem lookup_removed : ((stagedChanges uis.toRemove).foldl (dropCoin uis.toAdd) virtual).lookup
    point = some entry ↔ virtual.lookup point = some entry ∧ ∀ old, diff.toRemove.lookup point =
    some old → diff.toAdd.lookup point ≠ some old → old.scriptPublicKey = entry.scriptPublicKey →
    ∃ new, diff.toAdd.lookup point = some new ∧ new.scriptPublicKey = entry.scriptPublicKey := by
  rw [lookup_foldl_dropCoin]
  refine and_congr_right fun _ => ?_
  constructor
  · intro kept old isOld notSame isScript
    have isRemoval : (⟨stringOf old.scriptPublicKey, point, old⟩ :
        StagedChange) ∈ stagedChanges uis.toRemove := stages.mem_removals.mpr ⟨isOld, rfl, notSame⟩
    have placed : (pairsOf uis.toAdd (stringOf old.scriptPublicKey)).lookup point ≠ none := by
      intro notReplaced
      refine kept _ isRemoval ⟨rfl, ?_, notReplaced⟩
      rw [scriptOf, fromString_stringOf, isScript]
    rcases Option.ne_none_iff_exists'.mp placed with ⟨new, found⟩
    rw [stages.toAdd, staged_eq_some] at found
    exact ⟨new, found.1, (stringOf_injective found.2.1).trans isScript⟩
  · rintro kept undo isRemoval ⟨rfl, isScript, notReplaced⟩
    rw [stages.mem_removals] at isRemoval
    rcases isRemoval with ⟨isOld, isKey, notSame⟩
    have sameScript : undo.entry.scriptPublicKey = entry.scriptPublicKey := by
      rw [isScript, scriptOf, ← isKey, fromString_stringOf]
    rcases kept undo.entry isOld notSame sameScript with ⟨new, isNew, newScript⟩
    have found : (pairsOf uis.toAdd undo.key).lookup undo.outpoint = some new := by
      rw [stages.toAdd, staged_eq_some, ← isKey, newScript, sameScript]
      refine ⟨isNew, rfl, ?_⟩
      intro isGone
      rw [isOld] at isGone
      cases isGone
      exact notSame isNew
    rw [notReplaced] at found
    cases found

/-- A coin that is overwritten has the script of the coin that replaces it. -/
theorem sameScript (applicable : Applicable diff virtual)
    (isAddition : change ∈ stagedChanges uis.toAdd)
    (held : ((stagedChanges uis.toRemove).foldl (dropCoin uis.toAdd) virtual).lookup
    change.outpoint = some entry) : entry.scriptPublicKey = change.entry.scriptPublicKey := by
  rw [stages.mem_additions] at isAddition
  rcases isAddition with ⟨isNew, -, notRemoved⟩
  rw [stages.lookup_removed] at held
  rcases held with ⟨isHeld, kept⟩
  rcases applicable change.outpoint with valid | done
  · have isAdd : (diff.cell change.outpoint).add = some change.entry := isNew
    rcases valid.added (by rw [isAdd]; rfl) with vacant | isReplaced
    · rw [isHeld] at vacant
      cases vacant
    rcases Option.isSome_iff_exists.mp isReplaced with ⟨old, isOld⟩
    have sameOld := valid.removed old isOld
    rw [isHeld] at sameOld
    cases sameOld
    have notSame : diff.toAdd.lookup change.outpoint ≠ some entry := by
      rw [isNew]
      rintro same
      rw [same] at notRemoved
      exact notRemoved isOld
    rcases kept entry isOld notSame rfl with ⟨_, isAdded, newScript⟩
    rw [isNew, Option.some.injEq] at isAdded
    rw [← newScript, isAdded]
  · rw [isHeld, UTXODiff.cell, UTXOCollection.get, isNew, Cell.apply_add, Option.some.injEq] at done
    rw [done]

/-- The coins after both loops are those after the diff. -/
theorem lookup_committed (applicable : Applicable diff virtual) (point : DomainOutpoint) :
    ((stagedChanges uis.toAdd).foldl putCoin
    ((stagedChanges uis.toRemove).foldl (dropCoin uis.toAdd) virtual)).lookup point =
    (applyDiff virtual diff).lookup point := by
  rw [lookup_applyDiff]
  have isEntry : ∀ added ∈ stagedChanges uis.toAdd, diff.toAdd.lookup added.outpoint =
      some added.entry := fun added mem => (stages.mem_additions.mp mem).1
  cases isNew : diff.toAdd.lookup point with
  | some new =>
    have isCell : (diff.cell point).add = some new := isNew
    have applied : (diff.cell point).apply (virtual.lookup point) = some new := by
      rw [Cell.apply, isCell]
    rw [applied, ← isNew]
    apply lookup_foldl_putCoin_of_mem isEntry
    by_cases isGone : diff.toRemove.lookup point = some new
    · right
      rw [isNew, stages.lookup_removed]
      constructor
      · rcases applicable point with valid | done
        · exact valid.removed new isGone
        · rw [← done, applied]
      · intro old isOld notSame
        rw [isGone] at isOld
        cases isOld
        exact absurd isNew notSame
    · left
      exact ⟨⟨stringOf new.scriptPublicKey, point, new⟩,
        stages.mem_additions.mpr ⟨isNew, rfl, isGone⟩, rfl⟩
  | none =>
    rw [lookup_foldl_putCoin_of_not_mem]
    · apply Option.ext
      intro entry
      rw [stages.lookup_removed, isNew]
      have isCell : (diff.cell point).add = none := isNew
      cases isOld : diff.toRemove.lookup point with
      | none =>
        have noRemoval : (diff.cell point).remove = none := isOld
        rw [Cell.apply, isCell, noRemoval]
        simp
      | some old =>
        have isRemoval : (diff.cell point).remove = some old := isOld
        have applied : (diff.cell point).apply (virtual.lookup point) = none := by
          rw [Cell.apply, isCell, isRemoval]
        rw [applied]
        constructor
        · rintro ⟨held, kept⟩
          rcases applicable point with valid | done
          · have sameOld := valid.removed old isRemoval
            rw [held] at sameOld
            cases sameOld
            rcases kept entry rfl (by simp) rfl with ⟨new, absent, -⟩
            cases absent
          · rw [applied, held] at done
            cases done
        · intro held
          cases held
    · rintro added mem rfl
      rw [isEntry added mem] at isNew
      cases isNew

/-- A commit of a staged diff succeeds and indexes the coins after it. -/
theorem commit_ok (codec : Decoders) (index : Indexes uis.database virtual)
    (applicable : Applicable diff virtual) (differ : KeysDiffer (coinsWith virtual diff))
    (beforeFits : CountsFit virtual) (afterFits : CountsFit (applyDiff virtual diff)) :
    ∃ next, commit codec uis = .ok next ∧ next.toAdd = ∅ ∧
      next.toRemove = ∅ ∧ Indexes next.database (applyDiff virtual diff) := by
  have same := stages.lookup_committed applicable
  have within : Within virtual (coinsWith virtual diff) :=
    fun point entry held => ⟨entry, rfl, .inl held⟩
  have areRemovals : ∀ undo ∈ stagedChanges uis.toRemove,
      coinsWith virtual diff undo.outpoint (scriptOf undo) := by
    intro undo mem
    rcases stages.mem_removals.mp mem with ⟨isOld, isKey, -⟩
    refine ⟨undo.entry, ?_, .inr (.inr isOld)⟩
    rw [scriptOf, ← isKey, fromString_stringOf]
  have areAdditions : ∀ added ∈ stagedChanges uis.toAdd,
      coinsWith virtual diff added.outpoint added.entry.scriptPublicKey :=
    fun added mem => ⟨added.entry, rfl, Or.inr (.inl (stages.mem_additions.mp mem).1)⟩
  rcases commitRemovals_ok (Pending.init index.holds within) codec
    differ uis.toAdd areRemovals with ⟨_, isGone, pendingRemoved⟩
  rcases commitAdditions_ok (fun point => diff.toAdd.lookup point) pendingRemoved codec differ
    (fun added mem => (stages.mem_additions.mp mem).2.1.symm) areAdditions
    (fun added mem => (stages.mem_additions.mp mem).1)
    (fun added mem held => stages.sameScript applicable mem) with ⟨_, isAdded, pendingAdded⟩
  have fits : CountsFit ((stagedChanges uis.toAdd).foldl putCoin
      ((stagedChanges uis.toRemove).foldl (dropCoin uis.toAdd) virtual)) := by
    intro script
    rw [countOf_congr same]
    exact afterFits script
  rcases commitAccounts_ok index.accounted pendingAdded beforeFits fits
    uis.virtualParents with ⟨db, isWritten, isIndexed⟩
  refine ⟨discard { uis with database := db }, ?_, rfl, rfl,
    isIndexed.congr same⟩
  rw [commit, ok_bind isGone, ok_bind isAdded, isWritten]
  rfl

end Stages

/-- A store that has nothing staged and indexes the coins. -/
structure Synced (uis : UtxoIndexStore) (virtual : UTXOCollection) : Prop where
  noAdditions : uis.toAdd = ∅
  noRemovals : uis.toRemove = ∅
  indexed : Indexes uis.database virtual

theorem Synced.marked {virtual : UTXOCollection} (synced : Synced uis virtual) (dropped : Bool) :
    Synced (if dropped then markNeedsReset uis else uis) virtual := by
  cases dropped with
  | false => exact synced
  | true =>
    refine ⟨synced.noAdditions, synced.noRemovals, ?_, ?_⟩
    · exact synced.indexed.holds.insert_outside outside_needsResetKey [1]
    · exact synced.indexed.accounted.insert_other (by decide) (by decide) [1]

/-- An update by an applicable diff succeeds and indexes the coins after it. -/
theorem update_ok {virtual : UTXOCollection} (codec : Decoders) (synced : Synced uis virtual)
    {changeSet : VirtualChangeSet} (applicable : Applicable changeSet.virtualUTXODiff virtual)
    (differ : KeysDiffer (coinsWith virtual changeSet.virtualUTXODiff)) (fits : CountsFit virtual)
    (afterFits : CountsFit (applyDiff virtual changeSet.virtualUTXODiff)) : ∃ next,
    update codec changeSet uis = .ok next ∧ Synced next
    (applyDiff virtual changeSet.virtualUTXODiff) := by
  have marked := synced.marked changeSet.earlierChangeSetsDropped
  rcases stageDiff_ok marked.noAdditions marked.noRemovals changeSet.virtualUTXODiff with
    ⟨_, added, isGone, isAdded, sameBase, stages⟩
  have index : Indexes (updateVirtualParents added changeSet.virtualParents).database virtual := by
    change Indexes added.database virtual
    rw [sameBase.database]
    exact marked.indexed
  have isStaged : Stages changeSet.virtualUTXODiff
      (updateVirtualParents added changeSet.virtualParents) := ⟨stages.toAdd, stages.toRemove⟩
  rcases isStaged.commit_ok codec index applicable differ fits
    afterFits with ⟨next, committed, noAdditions, noRemovals, isIndexed⟩
  refine ⟨next, ?_, noAdditions, noRemovals, isIndexed⟩
  rw [update, ok_bind isGone, ok_bind isAdded]
  exact committed

end Htnd.UtxoIndex.Staging
