import Htnd.Utxo.UtxoSet

/-!
# Runs of diff operations

A memory holds the diffs a program has allocated.  A reference names one of
them, possibly through `Reversed`, which shares the collections of the diff
it reverses: a later mutation is visible through the reversed reference.  The
operations of a run allocate, mutate, compose and compare diffs in any order,
on any transactions, and may fail.

An operand of `WithDiffInPlace` that shares its collections with the diff it
is applied to is read before the call; the source ranges over such collections
only while it deletes nothing from them.
-/

namespace Htnd.Utxo.DiffRun

open Lib.StampedCell Entry MutableDiff DiffAlgebra UtxoSet List MutableUTXODiff
  UTXODiff Option Cell

/-! ## Memories and operations -/

/-- The diffs allocated so far, by address. -/
abbrev DiffMemory := List MutableUTXODiff

/-- A diff in memory, read directly or through `Reversed`. -/
structure DiffRef where
  address : DiffAddress
  isReversed : Bool
deriving DecidableEq

def DiffRef.read (ref : DiffRef) (memory : DiffMemory) : Option MutableUTXODiff :=
  (memory[ref.address]?).map fun mud =>
    if ref.isReversed then .ofDiff mud.toUTXODiff.reversed else mud

/-- The operations on diffs; a mutating one names the diff by its address. -/
inductive DiffOp where
  | newMutableUTXODiff
  | addTransaction (address : DiffAddress) (transaction : DomainTransaction)
      (blockDAAScore : UInt64)
  | addOutputsSpendingResolvedInputs (address : DiffAddress)
      (transaction : DomainTransaction) (blockDAAScore : UInt64)
  | withDiffInPlace (address : DiffAddress) (other : DiffRef)
  | withDiff (this other : DiffRef)
  | diffFrom (this other : DiffRef)
  | clone (this : DiffRef)
  | cloneMutableRecordingChanges (this : DiffRef)

/-- Run a mutating method on the diff at an address. -/
def mutate (memory : DiffMemory) (address : DiffAddress)
    (method : MutableUTXODiff → MutableUTXODiff × Option DiffError) :
    DiffMemory :=
  match memory[address]? with
  | some mud => memory.set address (method mud).1
  | none => memory

/-- Allocate the result of a method, if it returned one. -/
def allocate {Err : Type} (memory : DiffMemory)
    (result : Except Err MutableUTXODiff) : DiffMemory :=
  match result with
  | .ok mud => memory ++ [mud]
  | .error _ => memory

/-- One operation; a reference to nothing leaves the memory as it is. -/
def DiffOp.step (memory : DiffMemory) : DiffOp → DiffMemory
  | .newMutableUTXODiff => memory ++ [.newMutableUTXODiff]
  | .addTransaction address transaction blockDAAScore =>
    mutate memory address (·.addTransaction transaction blockDAAScore false)
  | .addOutputsSpendingResolvedInputs address transaction blockDAAScore =>
    mutate memory address (·.addOutputsSpendingResolvedInputs transaction blockDAAScore)
  | .withDiffInPlace address other =>
    match other.read memory with
    | some otherDiff => mutate memory address (DiffAlgebra.withDiffInPlace · otherDiff.toUTXODiff)
    | none => memory
  | .withDiff this other =>
    match this.read memory, other.read memory with
    | some thisDiff, some otherDiff =>
      allocate memory (DiffAlgebra.withDiff thisDiff otherDiff.toUTXODiff)
    | _, _ => memory
  | .diffFrom this other =>
    match this.read memory, other.read memory with
    | some thisDiff, some otherDiff =>
      allocate memory ((DiffAlgebra.diffFrom thisDiff.toUTXODiff otherDiff.toUTXODiff).map .ofDiff)
    | _, _ => memory
  | .clone this =>
    match this.read memory with
    | some mud => memory ++ [mud.clone]
    | none => memory
  | .cloneMutableRecordingChanges this =>
    match this.read memory with
    | some mud =>
      allocate memory (DiffAlgebra.cloneMutableRecordingChanges ⟨this.address, mud, false⟩)
    | none => memory

/-- The memory a sequence of operations leaves, from no diffs at all. -/
def run (operations : List DiffOp) : DiffMemory := operations.foldl DiffOp.step []

/-! ## Separation is kept by every operation -/

/-- The snapshot of a separated diff is separated. -/
def SeparatedUndo (undo : MutableUTXODiff.UndoEntry) : Prop :=
  Cell.Separated UTXOEntry.blockDAAScore ⟨undo.toAddEntry, undo.toRemoveEntry⟩

theorem spendCell_sep {cell : Cell UTXOEntry} (sep : Cell.Separated UTXOEntry.blockDAAScore cell)
    (entry : UTXOEntry) : Cell.Separated UTXOEntry.blockDAAScore (spendCell cell entry) := by
  unfold spendCell
  split_ifs with held coin pending
  · intro _ _ isAdded
    cases isAdded
  · intro _ _ isAdded
    cases isAdded
  · exact sep
  intro added _ isAdded isGone same
  cases isGone
  apply held
  change cell.add = some added at isAdded
  simp [isAdded, same]

variable {mud : MutableUTXODiff} {this other : UTXODiff} {memory : DiffMemory}

theorem addEntry_sep (sep : mud.Separated) (point : DomainOutpoint) (entry : UTXOEntry) :
    (mud.addEntry point entry).1.Separated := by
  rw [separated_iff] at sep ⊢
  intro other
  rw [cell_addEntry]
  split_ifs
  · unfold createCell
    split_ifs with held coin free
    · intro _ _ _ isGone
      cases isGone
    · intro _ _ _ isGone
      cases isGone
    · intro _ gone isAdded isGone same
      cases isAdded
      apply held
      change (mud.cell point).remove = some gone at isGone
      simp [isGone, same]
    · exact sep point
  · exact sep other

theorem removeEntry_sep (sep : mud.Separated) (point : DomainOutpoint) (entry : Option UTXOEntry) :
    (mud.removeEntry point entry).1.Separated := by
  cases entry with
  | none => exact sep
  | some value =>
    rw [separated_iff] at sep ⊢
    intro other
    rw [cell_removeEntry]
    split_ifs
    · exact spendCell_sep (sep point) value
    · exact sep other

theorem addTransaction_sep (sep : mud.Separated) (tx : DomainTransaction) (score : UInt64)
    (skips : Bool) : (mud.addTransaction tx score skips).1.Separated :=
  addTransaction_preserves (fun mud => mud.Separated) SeparatedUndo
    (fun mud point good => mud.separated_iff.mp good point) (fun mud undo sep goodUndo => by
      rw [separated_iff] at sep ⊢
      intro other
      rw [cell_restore]
      split_ifs
      · exact goodUndo
      · exact sep other)
    (fun _ point entry good => removeEntry_sep good point entry)
    (fun _ point entry good => addEntry_sep good point entry)
    mud tx score skips sep

theorem withDiffResult_sep {this : UTXODiff} (sep : this.Separated) (other : UTXODiff) :
    (withDiffResult this other).Separated := by
  rw [separated_iff] at sep ⊢
  intro point
  rw [cell_withDiffResult]
  exact (sep point).merge (other.cell point)

theorem diffFromResult_sep (thisSep : this.Separated) (otherSep : other.Separated) :
    (diffFromResult this other).Separated := by
  rw [separated_iff] at thisSep otherSep ⊢
  intro point
  rw [cell_diffFromResult]
  exact (thisSep point).diff (otherSep point)

theorem withDiffInPlace_sep {this : MutableUTXODiff} (sep : this.Separated) (other : UTXODiff) :
    (withDiffInPlace this other).1.Separated := by
  rw [inPlace_toUTXODiff]
  split_ifs
  · exact withDiffResult_sep sep other
  · exact sep

/-! ## Separation along runs -/

/-- Every diff in memory is separated. -/
def AllSeparated (memory : DiffMemory) : Prop := ∀ mud ∈ memory, mud.Separated

section

variable (all : AllSeparated memory)

include all

theorem read_sep {ref : DiffRef} (found : ref.read memory = some mud) : mud.Separated := by
  rcases map_eq_some_iff.mp found with ⟨stored, lookup, rfl⟩
  have storedSeparated := all stored (mem_of_getElem? lookup)
  split_ifs
  · rw [separated_iff] at storedSeparated ⊢
    intro point
    exact (storedSeparated point).swap
  · exact storedSeparated

theorem append_sep (sep : mud.Separated) : AllSeparated (memory ++ [mud]) := by
  intro other mem
  rcases mem_append.mp mem with old | new
  · exact all other old
  · rw [mem_singleton.mp new]
    exact sep

theorem allocate_sep {Err : Type} {result : Except Err MutableUTXODiff}
    (sep : ∀ mud, result = .ok mud → mud.Separated) : AllSeparated (allocate memory result) := by
  cases result with
  | error err => exact all
  | ok mud => exact append_sep all (sep mud rfl)

theorem mutate_sep (address : DiffAddress) {method : MutableUTXODiff →
    MutableUTXODiff × Option DiffError} (keeps : ∀ mud : MutableUTXODiff, mud.Separated →
    (method mud).1.Separated) : AllSeparated (mutate memory address method) := by
  unfold mutate
  cases lookup : memory[address]? with
  | none => exact all
  | some mud =>
    intro other mem
    rcases mem_or_eq_of_mem_set mem with old | new
    · exact all other old
    · rw [new]
      exact keeps mud (all mud (mem_of_getElem? lookup))

/-- One operation, successful or not, keeps every diff separated. -/
theorem step_sep (operation : DiffOp) : AllSeparated (operation.step memory) := by
  cases operation with
  | newMutableUTXODiff =>
    refine append_sep all ?_
    nofun
  | addTransaction address tx score =>
    exact mutate_sep all address fun _ sep => addTransaction_sep sep tx score false
  | addOutputsSpendingResolvedInputs address tx score =>
    exact mutate_sep all address fun _ sep => addTransaction_sep sep tx score true
  | withDiffInPlace address other =>
    rw [DiffOp.step]
    cases other.read memory with
    | none => exact all
    | some otherDiff =>
      exact mutate_sep all address fun _ sep => withDiffInPlace_sep sep otherDiff.toUTXODiff
  | withDiff this other =>
    rw [DiffOp.step]
    cases thisRead : this.read memory with
    | none => exact all
    | some thisDiff =>
      cases other.read memory with
      | none => exact all
      | some otherDiff =>
        refine allocate_sep all ?_
        intro result isOk
        rw [toUTXODiff_of_withDiff isOk]
        exact withDiffResult_sep (read_sep all thisRead) otherDiff.toUTXODiff
  | diffFrom this other =>
    rw [DiffOp.step]
    cases thisRead : this.read memory with
    | none => exact all
    | some thisDiff =>
      cases otherRead : other.read memory with
      | none => exact all
      | some otherDiff =>
        refine allocate_sep all ?_
        intro result isOk
        cases computed : DiffAlgebra.diffFrom thisDiff.toUTXODiff otherDiff.toUTXODiff with
        | error err =>
          rw [computed] at isOk
          cases isOk
        | ok diff =>
          rw [computed] at isOk
          cases isOk
          rw [DiffAlgebra.diffFrom] at computed
          split at computed
          · cases computed
          cases computed
          exact diffFromResult_sep (read_sep all thisRead) (read_sep all otherRead)
  | clone this =>
    rw [DiffOp.step]
    cases thisRead : this.read memory with
    | none => exact all
    | some mud =>
      have sep : mud.Separated := read_sep all thisRead
      exact append_sep all sep
  | cloneMutableRecordingChanges this =>
    rw [DiffOp.step]
    cases thisRead : this.read memory with
    | none => exact all
    | some mud =>
      refine allocate_sep all ?_
      intro result isOk
      have sep : mud.Separated := read_sep all thisRead
      cases isOk
      exact sep

end

theorem run_allSeparated (operations : List DiffOp) : AllSeparated (run operations) := by
  have loop : ∀ (remaining : List DiffOp) (memory : DiffMemory), AllSeparated memory →
      AllSeparated (remaining.foldl DiffOp.step memory) := by
    intro remaining
    induction remaining with
    | nil => exact fun _ all => all
    | cons operation rest ih =>
      intro memory all
      exact ih (operation.step memory) (step_sep all operation)
  exact loop operations [] nofun

/--
After any sequence of operations, no diff that can be read holds one outpoint
in both collections with the same DAA score.
-/
theorem run_neverAddsAndRemovesUnderOneScore
    (operations : List DiffOp) (ref : DiffRef) (diff : MutableUTXODiff)
    (found : ref.read (run operations) = some diff)
    (outpoint : DomainOutpoint) (added removed : UTXOEntry)
    (inToAdd : diff.toAdd.get outpoint = some added)
    (inToRemove : diff.toRemove.get outpoint = some removed) :
    added.blockDAAScore ≠ removed.blockDAAScore :=
  read_sep (run_allSeparated operations) found outpoint added removed inToAdd inToRemove

/-- A transaction that spends the coinbase coin accepted at a DAA score. -/
def spendCoinbase (daaScore : UInt64) : DomainTransaction where
  inputs := [⟨coinbaseOutpoint, some (coinbaseCoin daaScore)⟩]
  outputs := []
  subnetworkID := subnetworkIDNative
  id := .filled 2

/-- The coinbase transaction that creates the coinbase coin. -/
def mintCoinbase : DomainTransaction where
  inputs := []
  outputs := [⟨50, ⟨[0x51], 0, opTrue_length_lt⟩⟩]
  subnetworkID := subnetworkIDCoinbase
  id := .filled 1

/--
Both calls are atomic: one that returns an error leaves `toAdd` and `toRemove`
as they were.  `AddTransaction` wants its inputs resolved.
-/
theorem addTransaction_atomic {mud next : MutableUTXODiff}
    {transaction : DomainTransaction} {blockDAAScore : UInt64} {err : DiffError}
    (failed : (∀ input ∈ transaction.inputs, input.utxoEntry.isSome) ∧
        mud.addTransaction transaction blockDAAScore false = (next, some err) ∨
      mud.addOutputsSpendingResolvedInputs transaction blockDAAScore =
        (next, some err)) (outpoint : DomainOutpoint) :
    next.toAdd.get outpoint = mud.toAdd.get outpoint ∧
      next.toRemove.get outpoint = mud.toRemove.get outpoint := by
  have same : next.cell outpoint = mud.cell outpoint := by
    rcases failed with ⟨resolved, failed⟩ | failed
    · exact cell_addTransaction_of_err (fun input mem _ => resolved input mem) failed outpoint
    · refine cell_addTransaction_of_err (fun input _ taken => ?_) failed outpoint
      rwa [Bool.true_and, ← not_isSome, Bool.not_eq_false'] at taken
  exact Cell.mk.inj same

/-- The input is taken before the output collides with a coin of the diff. -/
theorem addTransaction_atomic_collision :
    let mud := MutableUTXODiff.ofDiff ⟨AList.singleton ⟨.filled 2, 0⟩ (coinbaseCoin 5), ∅⟩
    let paying := { spendCoinbase 5 with outputs := mintCoinbase.outputs }
    (mud.removeEntry coinbaseOutpoint (some (coinbaseCoin 5))).2 = none ∧ ∃ next existing entry,
      mud.addTransaction paying 8 false = (next, some
      (.cannotAddTwice ⟨.filled 2, 0⟩ existing entry)) ∧ ∀ outpoint, next.toAdd.get outpoint =
      mud.toAdd.get outpoint ∧
          next.toRemove.get outpoint = mud.toRemove.get outpoint := by
  intro mud paying
  have resolved : ∀ input ∈ paying.inputs, input.utxoEntry.isSome := by decide
  exact ⟨rfl, _, _, _, rfl, addTransaction_atomic (.inl ⟨resolved, rfl⟩)⟩

/-- A coin spent at one score and minted again at another is in both. -/
theorem run_neverAddsAndRemovesUnderOneScore_remint : ∃ diff : MutableUTXODiff,
      DiffRef.read ⟨0, false⟩ (run [.newMutableUTXODiff, .addTransaction 0 (spendCoinbase 5) 6,
          .addTransaction 0 mintCoinbase 7]) = some diff ∧
      diff.toAdd.get coinbaseOutpoint = some (coinbaseCoin 7) ∧
      diff.toRemove.get coinbaseOutpoint = some (coinbaseCoin 5) ∧
      (coinbaseCoin 7).blockDAAScore ≠ (coinbaseCoin 5).blockDAAScore := by
  refine ⟨_, rfl, rfl, rfl, ?_⟩
  exact run_neverAddsAndRemovesUnderOneScore
    [.newMutableUTXODiff, .addTransaction 0 (spendCoinbase 5) 6, .addTransaction 0 mintCoinbase 7]
    ⟨0, false⟩ _ rfl coinbaseOutpoint _ _ rfl rfl

/-! ## What a recording diff records -/

/--
Between two states of a diff that records its changes, every outpoint whose
entries differ has been recorded.
-/
structure Records (before after : MutableUTXODiff) : Prop where
  changedFrom_eq : after.changedFrom = before.changedFrom
  recorded : ∀ old, before.changed = some old → ∃ new, after.changed = some new ∧ old ⊆ new ∧
    ∀ outpoint, outpoint ∉ new → after.cell outpoint = before.cell outpoint

theorem Records.refl (mud : MutableUTXODiff) : Records mud mud :=
  ⟨rfl, fun old recording => ⟨old, recording, List.Subset.refl old, fun _ _ => rfl⟩⟩

theorem Records.trans {first second third : MutableUTXODiff}
    (left : Records first second) (right : Records second third) : Records first third := by
  refine ⟨right.changedFrom_eq.trans left.changedFrom_eq, ?_⟩
  intro old recording
  rcases left.recorded old recording with ⟨middle, middleRecords, oldSubset, middleCells⟩
  rcases right.recorded middle middleRecords with ⟨new, newRecords, middleSubset, newCells⟩
  refine ⟨new, newRecords, fun _ mem => middleSubset (oldSubset mem), ?_⟩
  intro point unrecorded
  rw [newCells point unrecorded]
  exact middleCells point fun mem => unrecorded (middleSubset mem)

/-- A step that records its outpoint and changes no other. -/
theorem Records.of_single {before after : MutableUTXODiff} {point : DomainOutpoint}
    (changedFrom : after.changedFrom = before.changedFrom)
    (changed : after.changed = before.changed.map (List.insert point))
    (cells : ∀ other, other ≠ point → after.cell other = before.cell other) :
    Records before after := by
  refine ⟨changedFrom, ?_⟩
  intro _ recording
  rw [recording] at changed
  refine ⟨_, changed, fun _ mem => mem_insert_of_mem mem, ?_⟩
  intro other unrecorded
  apply cells
  intro same
  exact unrecorded (same ▸ mem_insert_self)

theorem addEntry_records (mud : MutableUTXODiff) (point : DomainOutpoint) (entry : UTXOEntry) :
    Records mud (mud.addEntry point entry).1 := by
  have books : (mud.addEntry point entry).1.changedFrom = mud.changedFrom ∧
        (mud.addEntry point entry).1.changed = mud.changed.map (List.insert point) := by
    unfold addEntry
    dsimp only
    split_ifs
    · exact ⟨rfl, rfl⟩
    · exact ⟨rfl, rfl⟩
    cases (mud.recordChange point).toAdd.get point with
    | none => exact ⟨rfl, rfl⟩
    | some existing =>
      dsimp only
      split_ifs <;> exact ⟨rfl, rfl⟩
  refine Records.of_single books.1 books.2 ?_
  intro _ ne
  rw [cell_addEntry, if_neg ne]

theorem removeEntry_records (mud : MutableUTXODiff) (point : DomainOutpoint)
    (entry : Option UTXOEntry) : Records mud (mud.removeEntry point entry).1 := by
  cases entry with
  | none => exact Records.of_single rfl rfl fun _ _ => rfl
  | some value =>
    have books : (mud.removeEntry point (some value)).1.changedFrom = mud.changedFrom ∧
          (mud.removeEntry point (some value)).1.changed = mud.changed.map (List.insert point) := by
      unfold removeEntry
      dsimp only
      split_ifs <;> exact ⟨rfl, rfl⟩
    refine Records.of_single books.1 books.2 ?_
    intro _ ne
    rw [cell_removeEntry, if_neg ne]

theorem restore_records (mud : MutableUTXODiff)
    (undo : MutableUTXODiff.UndoEntry) : Records mud (mud.restore undo) := by
  refine Records.of_single rfl rfl ?_
  intro _ ne
  rw [cell_restore, if_neg ne]

/-- `addTransaction` records what it touches, also when it rolls back. -/
theorem addTransaction_records (mud : MutableUTXODiff) (tx : DomainTransaction) (score : UInt64)
    (skips : Bool) : Records mud (mud.addTransaction tx score skips).1 :=
  addTransaction_preserves (Records mud) (fun _ => True) (fun _ _ _ => trivial)
    (fun _ undo good _ => good.trans (restore_records _ undo)) (fun _ point entry good =>
      good.trans (removeEntry_records _ point entry)) (fun _ point entry good =>
      good.trans (addEntry_records _ point entry)) mud tx score skips (Records.refl mud)

theorem foldl_recordChange (outpoints : List DomainOutpoint) (mud : MutableUTXODiff) :
    Records mud (outpoints.foldl MutableUTXODiff.recordChange mud) ∧ ∀ old, mud.changed = some old →
    ∃ new, (outpoints.foldl MutableUTXODiff.recordChange mud).changed = some new ∧
    outpoints ⊆ new := by
  induction outpoints generalizing mud with
  | nil => exact ⟨Records.refl mud, fun old recording => ⟨old, recording, nil_subset old⟩⟩
  | cons point rest ih =>
    have step : Records mud (mud.recordChange point) := Records.of_single rfl rfl fun _ _ => rfl
    rcases ih (mud.recordChange point) with ⟨restRecords, restSubset⟩
    refine ⟨step.trans restRecords, ?_⟩
    intro old recording
    have next : (mud.recordChange point).changed = some (List.insert point old) := by
      rw [recordChange, recording]
      rfl
    rcases restSubset _ next with ⟨new, records, inNew⟩
    rcases restRecords.recorded _ next with ⟨sameNew, sameRecords, insertSubset, -⟩
    have same : sameNew = new := some.inj (sameRecords.symm.trans records)
    subst same
    refine ⟨sameNew, records, ?_⟩
    intro _ mem
    rcases mem_cons.mp mem with rfl | inRest
    · exact insertSubset mem_insert_self
    · exact inNew inRest

theorem recordChanges_records (this : MutableUTXODiff) (other : UTXODiff) :
    Records this (recordChanges this other) ∧ ∀ old, this.changed = some old → ∃ new,
    (recordChanges this other).changed = some new ∧ other.toAdd.keys ⊆ new ∧
    other.toRemove.keys ⊆ new := by
  rcases foldl_recordChange other.toAdd.keys this with ⟨addRecords, addSubset⟩
  rcases foldl_recordChange other.toRemove.keys (other.toAdd.keys.foldl recordChange this) with
    ⟨removeRecords, removeSubset⟩
  refine ⟨addRecords.trans removeRecords, ?_⟩
  intro old recording
  rcases addSubset old recording with ⟨middle, middleChanged, inMiddle⟩
  rcases removeSubset middle middleChanged with ⟨new, newChanged, inNew⟩
  rcases removeRecords.recorded middle middleChanged with ⟨sameNew, sameChanged, middleSubset, -⟩
  have same : sameNew = new := some.inj (sameChanged.symm.trans newChanged)
  subst same
  exact ⟨sameNew, newChanged, fun _ mem => middleSubset (inMiddle mem), inNew⟩

/-- `withDiffInPlace` records every outpoint of its operand. -/
theorem withDiffInPlace_records (this : MutableUTXODiff)
    (other : UTXODiff) : Records this (withDiffInPlace this other).1 := by
  rcases recordChanges_records this other with ⟨records, covers⟩
  have books : (withDiffInPlace this other).1.changedFrom = (recordChanges this other).changedFrom ∧
        (withDiffInPlace this other).1.changed = (recordChanges this other).changed := by
    unfold DiffAlgebra.withDiffInPlace
    dsimp only
    split <;> exact ⟨rfl, rfl⟩
  refine ⟨books.1.trans records.changedFrom_eq, ?_⟩
  intro old recording
  rcases covers old recording with ⟨new, newChanged, addKeys, removeKeys⟩
  rcases records.recorded old recording with ⟨sameNew, sameChanged, oldSubset, -⟩
  have same : sameNew = new := some.inj (sameChanged.symm.trans newChanged)
  subst same
  refine ⟨sameNew, books.2.trans newChanged, oldSubset, ?_⟩
  intro point unrecorded
  have notAdded : other.toAdd.get point = none := AList.lookup_eq_none.mpr fun mem => unrecorded
    (addKeys (AList.mem_keys.mp mem))
  have kept : other.toRemove.get point = none := AList.lookup_eq_none.mpr fun mem => unrecorded
    (removeKeys (AList.mem_keys.mp mem))
  have frame : other.cell point = ⟨none, none⟩ := by rw [cell, notAdded, kept]
  rw [inPlace_toUTXODiff]
  split_ifs
  · rw [cell_withDiffResult, frame, merge_none]
  · rfl

/-! ## The fast path -/

/-- The calls that change a recording clone. -/
inductive DiffChange where
  | addTransaction (transaction : DomainTransaction) (blockDAAScore : UInt64)
  | addOutputsSpendingResolvedInputs (transaction : DomainTransaction) (blockDAAScore : UInt64)
  | withDiffInPlace (other : UTXODiff)

/-- The diff a call leaves, whether it succeeds or fails. -/
def DiffChange.apply (mud : MutableUTXODiff) : DiffChange → MutableUTXODiff
  | .addTransaction transaction blockDAAScore =>
    (mud.addTransaction transaction blockDAAScore false).1
  | .addOutputsSpendingResolvedInputs transaction blockDAAScore =>
    (mud.addOutputsSpendingResolvedInputs transaction blockDAAScore).1
  | .withDiffInPlace other => (DiffAlgebra.withDiffInPlace mud other).1

theorem changes_record (changes : List DiffChange) (mud : MutableUTXODiff) :
    Records mud (changes.foldl DiffChange.apply mud) := by
  induction changes generalizing mud with
  | nil => exact Records.refl mud
  | cons change rest ih =>
    have step : Records mud (change.apply mud) := by
      cases change with
      | addTransaction tx score => exact addTransaction_records mud tx score false
      | addOutputsSpendingResolvedInputs tx score => exact addTransaction_records mud tx score true
      | withDiffInPlace other => exact withDiffInPlace_records mud other
    exact step.trans (ih (change.apply mud))

variable {changed : List DomainOutpoint}

/-- Where two diffs agree, nothing clashes and nothing differs. -/
theorem diffFromChecks_restrict (sep : this.Separated) (agree : ∀ point, point ∉ changed →
    other.cell point = this.cell point) : diffFromChecks (restrictToOutpoints this changed)
    (restrictToOutpoints other changed) = none ↔ diffFromChecks this other = none := by
  rw [diffFrom_eq_none, diffFrom_eq_none]
  apply forall_congr'
  intro point
  rw [cell_restrict, cell_restrict]
  by_cases mem : point ∈ changed
  · rw [if_pos mem, if_pos mem]
  rw [if_neg mem, if_neg mem, agree point mem]
  have cellSeparated := this.separated_iff.mp sep point
  constructor
  · intro _ entryA entryB clash
    exact absurd clash (cellSeparated.not_diffClash_self entryA entryB)
  · intro _ entryA entryB clash
    exact absurd clash ((separated_none _).not_diffClash_self entryA entryB)

theorem cell_diffFromResult_restrict
    (agree : ∀ point, point ∉ changed → other.cell point = this.cell point)
    (point : DomainOutpoint) : (diffFromResult (restrictToOutpoints this changed)
    (restrictToOutpoints other changed)).cell point = (diffFromResult this other).cell point := by
  rw [cell_diffFromResult, cell_diffFromResult, cell_restrict, cell_restrict]
  by_cases mem : point ∈ changed
  · rw [if_pos mem, if_pos mem]
  · rw [if_neg mem, if_neg mem, agree point mem, diff_self, diff_self]

/--
For a diff of any run and a recording clone of it changed in any way, the fast
path applies, fails exactly when `DiffFrom` fails, and otherwise returns the
same collections.
-/
theorem diffFromChanged_agrees (operations : List DiffOp) (ref : DiffRef) (this : ImmutableUTXODiff)
    (found : ref.read (run operations) = some this.mutableUTXODiff)
    (notInvalidated : this.isInvalidated = false) (clone : MutableUTXODiff)
    (cloned : cloneMutableRecordingChanges this = .ok clone)
    (changes : List DiffChange) (other : ImmutableUTXODiff) (otherContents : other.mutableUTXODiff =
      changes.foldl DiffChange.apply clone) (otherNotInvalidated : other.isInvalidated = false) :
    ∃ result err, diffFromChanged this other = (result, true, err) ∧
      (err = none ↔ ∃ full, diffFrom this.mutableUTXODiff.toUTXODiff
          other.mutableUTXODiff.toUTXODiff = .ok full) ∧ ∀ full,
        diffFrom this.mutableUTXODiff.toUTXODiff other.mutableUTXODiff.toUTXODiff = .ok full →
        ∃ fast, result = some fast ∧ ∀ outpoint, fast.toAdd.get outpoint = full.toAdd.get outpoint ∧
            fast.toRemove.get outpoint = full.toRemove.get outpoint := by
  have separated : this.mutableUTXODiff.Separated := read_sep (run_allSeparated operations) found
  rw [cloneMutableRecordingChanges, notInvalidated] at cloned
  cases cloned
  have records := changes_record changes { this.mutableUTXODiff.clone with
      changed := some []
      changedFrom := some this.address }
  rw [← otherContents] at records
  rcases records.recorded [] rfl with ⟨changed, isChanged, -, agree⟩
  have sameOrigin := records.changedFrom_eq
  have checks := diffFromChecks_restrict separated agree
  have cells := cell_diffFromResult_restrict agree
  have fastPath : diffFromChanged this other = computedOutcome (diffFrom
        (restrictToOutpoints this.mutableUTXODiff.toUTXODiff changed)
        (restrictToOutpoints other.mutableUTXODiff.toUTXODiff changed)) := by
    simp [diffFromChanged, notInvalidated, otherNotInvalidated, isChanged, sameOrigin]
  rw [fastPath]
  cases fullChecks : diffFromChecks this.mutableUTXODiff.toUTXODiff
    other.mutableUTXODiff.toUTXODiff with
  | none =>
    rw [diffFrom_of_checks (checks.mpr fullChecks), diffFrom_of_checks fullChecks]
    refine ⟨_, _, rfl, by simp, ?_⟩
    intro full isFull
    cases isFull
    refine ⟨_, rfl, ?_⟩
    intro outpoint
    exact ⟨congrArg add (cells outpoint), congrArg remove (cells outpoint)⟩
  | some err =>
    cases fastChecks : diffFromChecks (restrictToOutpoints this.mutableUTXODiff.toUTXODiff changed)
      (restrictToOutpoints other.mutableUTXODiff.toUTXODiff changed) with
    | none =>
      rw [checks.mp fastChecks] at fullChecks
      cases fullChecks
    | some fastErr =>
      rw [diffFrom, diffFrom, fullChecks, fastChecks]
      exact ⟨_, _, rfl, by simp, by simp⟩

/--
A coin minted at score 5 in a diff, and a clone in which it is spent, minted
again at score 7 and once more at score 9.
-/
theorem diffFromChanged_agrees_remint : ∃ this clone other, DiffRef.read ⟨0, false⟩
        (run [.newMutableUTXODiff, .addTransaction 0 mintCoinbase 5]) = some this.mutableUTXODiff ∧
      cloneMutableRecordingChanges this = .ok clone ∧ other.mutableUTXODiff =
        [.addTransaction (spendCoinbase 5) 6, .addTransaction mintCoinbase 7,
          .addTransaction mintCoinbase 9].foldl DiffChange.apply clone ∧
      ∃ result err, diffFromChanged this other = (result, true, err) ∧
        (err = none ↔ ∃ full, diffFrom this.mutableUTXODiff.toUTXODiff
            other.mutableUTXODiff.toUTXODiff = .ok full) ∧ ∀ full,
          diffFrom this.mutableUTXODiff.toUTXODiff other.mutableUTXODiff.toUTXODiff = .ok full →
          ∃ fast, result = some fast ∧ ∀ outpoint,
              fast.toAdd.get outpoint = full.toAdd.get outpoint ∧
              fast.toRemove.get outpoint = full.toRemove.get outpoint := by
  refine ⟨⟨0, _, false⟩, _, ⟨1, _, false⟩, rfl, rfl, rfl, ?_⟩
  exact diffFromChanged_agrees [.newMutableUTXODiff, .addTransaction 0 mintCoinbase 5] ⟨0, false⟩
    ⟨0, _, false⟩ rfl rfl _ rfl [.addTransaction (spendCoinbase 5) 6,
    .addTransaction mintCoinbase 7, .addTransaction mintCoinbase 9] ⟨1, _, false⟩ rfl rfl

end Htnd.Utxo.DiffRun
