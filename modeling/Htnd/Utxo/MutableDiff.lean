import Htnd.Lib.RangeLoops
import Htnd.Lib.StampedCell
import Htnd.Utxo.Entry

/-!
# UTXO collections and mutable UTXO diffs

The model of `utxo_collection.go` and `mutable_utxo_diff.go`.  A mutating
method returns the diff it leaves behind together with the error it returns,
since a failed call may have changed the diff.  A `nil` dereference is an
error of its own, after which nothing is rolled back.

The logging statements, the list of immutable references and the capacity
hints of the source have no effect on the contents of a diff and are left out.
-/

namespace Htnd.Utxo.MutableDiff

open Lib.RangeLoops Lib.StampedCell Entry

/-! ## Collections -/

/-- `utxoCollection`: a map from outpoints to entries. -/
abbrev UTXOCollection := FiniteMap DomainOutpoint UTXOEntry

namespace UTXOCollection

def get (collection : UTXOCollection) (outpoint : DomainOutpoint) : Option UTXOEntry :=
  collection.lookup outpoint

def contains (collection : UTXOCollection) (outpoint : DomainOutpoint) : Bool :=
  (collection.get outpoint).isSome

def len (collection : UTXOCollection) : Nat := collection.entries.length

def add (collection : UTXOCollection) (outpoint : DomainOutpoint)
    (entry : UTXOEntry) : UTXOCollection :=
  collection.insert outpoint entry

def remove (collection : UTXOCollection) (outpoint : DomainOutpoint) :
    UTXOCollection :=
  collection.erase outpoint

def removeMultiple (collection collectionToRemove : UTXOCollection) :
    UTXOCollection :=
  eraseKeys collectionToRemove collection

def containsWithDAAScore (collection : UTXOCollection)
    (outpoint : DomainOutpoint) (daaScore : UInt64) : Bool :=
  match collection.get outpoint with
  | some entry => entry.blockDAAScore == daaScore
  | none => false

@[simp]
theorem get_empty (point : DomainOutpoint) : get (∅ : UTXOCollection) point = none :=
  AList.lookup_empty point

variable (collection : UTXOCollection) (point other : DomainOutpoint)

@[simp]
theorem get_add (entry : UTXOEntry) : (collection.add point entry).get other =
      if other = point then some entry else collection.get other :=
  insert_ite collection point other entry

@[simp]
theorem get_remove : (collection.remove point).get other =
      if other = point then none else collection.get other :=
  erase_ite collection point other

@[simp]
theorem get_removeMultiple (collection gone : UTXOCollection) (point : DomainOutpoint) :
    (collection.removeMultiple gone).get point =
      if (gone.get point).isSome then none
      else collection.get point :=
  lookup_eraseKeys gone collection point

@[simp]
theorem contains_eq_holds (point : DomainOutpoint) (score : UInt64) :
    collection.containsWithDAAScore point score = holds UTXOEntry.blockDAAScore
    (collection.get point) score := by
  unfold containsWithDAAScore
  cases collection.get point with
  | none => rfl
  | some entry => rfl

end UTXOCollection

/-! ## Diffs -/

structure UTXODiff where
  toAdd : UTXOCollection
  toRemove : UTXOCollection
deriving DecidableEq

/-- An address of a diff in memory, as a weak pointer compares it. -/
abbrev DiffAddress := Nat

/--
`mutableUTXODiff`.  A diff that records its changes has a set `changed` and
the address of the diff it was cloned from.
-/
structure MutableUTXODiff extends UTXODiff where
  changed : Option (List DomainOutpoint)
  changedFrom : Option DiffAddress
deriving DecidableEq

/-- The errors of the diff operations, with the data of their messages. -/
inductive DiffError where
  | cannotAddTwice (outpoint : DomainOutpoint) (pending incoming : UTXOEntry)
  | cannotRemoveTwice (outpoint : DomainOutpoint)
  | outputIndexTooLarge (index : Nat)
  | conflict (funcName : String) (outpoint : DomainOutpoint)
      (conflictDescription : String) (entryA entryB : UTXOEntry)
  | addedTwiceRemovedOnce (outpoint : DomainOutpoint) (addedEntry removedEntry : UTXOEntry)
  | nilEntryDereference
  | invalidated (attempt : String)
deriving DecidableEq

namespace UTXODiff

/-- `NewUTXODiff` and `newMutableUTXODiff`: nothing added, nothing removed. -/
def empty : UTXODiff := ⟨∅, ∅⟩

/-- What the diff does at one outpoint. -/
def cell (diff : UTXODiff) (outpoint : DomainOutpoint) : Cell UTXOEntry :=
  ⟨diff.toAdd.get outpoint, diff.toRemove.get outpoint⟩

@[simp]
theorem cell_empty (point : DomainOutpoint) : empty.cell point = ⟨none, none⟩ := by
  simp [cell, empty]

/-- `Reversed`: the two collections change places. -/
def reversed (diff : UTXODiff) : UTXODiff := ⟨diff.toRemove, diff.toAdd⟩

@[simp]
theorem cell_reversed (diff : UTXODiff) (point : DomainOutpoint) :
    diff.reversed.cell point = (diff.cell point).swap :=
  rfl

end UTXODiff

namespace MutableUTXODiff

/-- A diff that records no changes. -/
def ofDiff (diff : UTXODiff) : MutableUTXODiff := { diff with changed := none, changedFrom := none }

def newMutableUTXODiff : MutableUTXODiff := ofDiff .empty

def clone (mud : MutableUTXODiff) : MutableUTXODiff := ofDiff mud.toUTXODiff

def recordChange (mud : MutableUTXODiff) (outpoint : DomainOutpoint) :
    MutableUTXODiff :=
  { mud with changed := mud.changed.map (List.insert outpoint) }

@[simp]
theorem recordChange_toUTXODiff (mud : MutableUTXODiff) (point : DomainOutpoint) :
    (mud.recordChange point).toUTXODiff = mud.toUTXODiff :=
  rfl

/-! ### Undo log -/

/-- `utxoDiffUndoEntry`: the state of one outpoint before a mutation. -/
structure UndoEntry where
  outpoint : DomainOutpoint
  toAddEntry : Option UTXOEntry
  toRemoveEntry : Option UTXOEntry

def snapshot (mud : MutableUTXODiff) (outpoint : DomainOutpoint) : UndoEntry :=
  ⟨outpoint, mud.toAdd.get outpoint, mud.toRemove.get outpoint⟩

/-- Put one collection back to a recorded state at an outpoint. -/
def restoreCollection (collection : UTXOCollection)
    (outpoint : DomainOutpoint) : Option UTXOEntry → UTXOCollection
  | some entry => collection.add outpoint entry
  | none => collection.remove outpoint

def restore (mud : MutableUTXODiff) (undo : UndoEntry) : MutableUTXODiff :=
  let mud := mud.recordChange undo.outpoint
  { mud with
    toAdd := restoreCollection mud.toAdd undo.outpoint undo.toAddEntry
    toRemove := restoreCollection mud.toRemove undo.outpoint undo.toRemoveEntry }

/-- The snapshots are restored from the newest to the oldest. -/
def rollback (mud : MutableUTXODiff) (undoLog : List UndoEntry) :
    MutableUTXODiff :=
  undoLog.foldr (fun undo mud => mud.restore undo) mud

/-! ### Entries -/

def addEntry (mud : MutableUTXODiff) (outpoint : DomainOutpoint)
    (entry : UTXOEntry) : MutableUTXODiff × Option DiffError :=
  let mud := mud.recordChange outpoint
  if mud.toRemove.containsWithDAAScore outpoint entry.blockDAAScore then
    if !sameCoin (mud.toRemove.get outpoint) (some entry) then
      ({ mud with
          toRemove := mud.toRemove.remove outpoint
          toAdd := mud.toAdd.add outpoint entry }, none)
    else
      ({ mud with toRemove := mud.toRemove.remove outpoint }, none)
  else
    match mud.toAdd.get outpoint with
    | some existing =>
      if sameCoin (some existing) (some entry) then
        if !sameDAAScore (some existing) (some entry) then
          ({ mud with
              toAdd := (mud.toAdd.remove outpoint).add outpoint entry },
            none)
        else
          (mud, none)
      else
        (mud, some (.cannotAddTwice outpoint existing entry))
    | none => ({ mud with toAdd := mud.toAdd.add outpoint entry }, none)

/-- `removeEntry`; the entry of an unresolved input is `nil`. -/
def removeEntry (mud : MutableUTXODiff) (outpoint : DomainOutpoint) :
    Option UTXOEntry → MutableUTXODiff × Option DiffError
  | none => (mud.recordChange outpoint, some .nilEntryDereference)
  | some entry =>
    let mud := mud.recordChange outpoint
    if mud.toAdd.containsWithDAAScore outpoint entry.blockDAAScore then
      if !sameCoin (mud.toAdd.get outpoint) (some entry) then
        ({ mud with
            toAdd := mud.toAdd.remove outpoint
            toRemove := mud.toRemove.add outpoint entry }, none)
      else
        ({ mud with toAdd := mud.toAdd.remove outpoint }, none)
    else if mud.toRemove.contains outpoint then
      (mud, some (.cannotRemoveTwice outpoint))
    else
      ({ mud with toRemove := mud.toRemove.add outpoint entry }, none)

/-! ### Transactions -/

/-- What the error return of a step does to the diff: a panic unwinds. -/
def abort (mud : MutableUTXODiff) (undoLog : List UndoEntry) : DiffError → MutableUTXODiff
  | .nilEntryDereference => mud
  | _ => mud.rollback undoLog

/-- The loop of `addTransaction` over the inputs. -/
def removeInputs (skipMissingInputs : Bool) : List DomainTransactionInput → MutableUTXODiff →
    List UndoEntry → MutableUTXODiff × List UndoEntry × Option DiffError
  | [], mud, undoLog => (mud, undoLog, none)
  | input :: rest, mud, undoLog =>
    if skipMissingInputs && input.utxoEntry.isNone then
      removeInputs skipMissingInputs rest mud undoLog
    else
      let undoLog := undoLog ++ [mud.snapshot input.previousOutpoint]
      match mud.removeEntry input.previousOutpoint input.utxoEntry with
      | (mud, none) => removeInputs skipMissingInputs rest mud undoLog
      | (mud, some err) => (mud.abort undoLog err, undoLog, some err)

def newUTXOEntry (output : DomainTransactionOutput) (isCoinbase : Bool)
    (blockDAAScore : UInt64) : UTXOEntry :=
  ⟨output.value, output.scriptPublicKey, blockDAAScore, isCoinbase⟩

/-- The loop of `addTransaction` over the outputs, from position `index`. -/
def addOutputs (transactionID : DomainTransactionID) (isCoinbase : Bool) (blockDAAScore : UInt64) :
    Nat → List DomainTransactionOutput → MutableUTXODiff → List UndoEntry →
    MutableUTXODiff × Option DiffError
  | _, [], mud, _ => (mud, none)
  | index, output :: rest, mud, undoLog =>
    if 2 ^ 32 - 1 < index then
      (mud.rollback undoLog, some (.outputIndexTooLarge index))
    else
      let outpoint : DomainOutpoint := ⟨transactionID, UInt32.ofNat index⟩
      let entry := newUTXOEntry output isCoinbase blockDAAScore
      let undoLog := undoLog ++ [mud.snapshot outpoint]
      match mud.addEntry outpoint entry with
      | (mud, none) =>
        addOutputs transactionID isCoinbase blockDAAScore (index + 1) rest mud undoLog
      | (mud, some err) => (mud.abort undoLog err, some err)

def addTransaction (mud : MutableUTXODiff) (transaction : DomainTransaction)
    (blockDAAScore : UInt64) (skipMissingInputs : Bool) : MutableUTXODiff × Option DiffError :=
  match removeInputs skipMissingInputs transaction.inputs mud [] with
  | (mud, _, some err) => (mud, some err)
  | (mud, undoLog, none) =>
    addOutputs transaction.id transaction.isCoinBase blockDAAScore 0 transaction.outputs mud undoLog

def addOutputsSpendingResolvedInputs (mud : MutableUTXODiff) (transaction : DomainTransaction)
    (blockDAAScore : UInt64) : MutableUTXODiff × Option DiffError :=
  mud.addTransaction transaction blockDAAScore true

end MutableUTXODiff

/-! ## What one entry changes -/

/-- What `addEntry` does to the cell of its outpoint. -/
def createCell (cell : Cell UTXOEntry) (entry : UTXOEntry) : Cell UTXOEntry :=
  if holds UTXOEntry.blockDAAScore cell.remove entry.blockDAAScore then
    if sameCoin cell.remove (some entry) then ⟨cell.add, none⟩
    else ⟨some entry, none⟩
  else if cell.add = none ∨ sameCoin cell.add (some entry) = true then
    ⟨some entry, cell.remove⟩
  else cell

/-- What `removeEntry` does to the cell of its outpoint. -/
def spendCell (cell : Cell UTXOEntry) (entry : UTXOEntry) : Cell UTXOEntry :=
  if holds UTXOEntry.blockDAAScore cell.add entry.blockDAAScore then
    if sameCoin cell.add (some entry) then ⟨none, cell.remove⟩
    else ⟨none, some entry⟩
  else if cell.remove.isSome then cell
  else ⟨cell.add, some entry⟩

namespace MutableUTXODiff

section

variable (mud : MutableUTXODiff)

include mud

variable (point : DomainOutpoint) (entry : UTXOEntry)

/-- The outcomes of `addEntry`. -/
theorem addEntry_cases : (∀ other, (mud.addEntry point entry).1.cell other =
      if other = point then createCell (mud.cell point) entry
      else mud.cell other) ∧ ((mud.addEntry point entry).2 = none ↔
      holds UTXOEntry.blockDAAScore (mud.cell point).remove entry.blockDAAScore = true ∨
          (mud.cell point).add = none ∨ sameCoin (mud.cell point).add (some entry) = true) := by
  cases held : holds UTXOEntry.blockDAAScore (mud.toRemove.get point) entry.blockDAAScore with
  | true =>
    cases coin : sameCoin (mud.toRemove.get point) (some entry) <;> refine ⟨fun other => ?_,
        by simp [addEntry, UTXODiff.cell, held, coin]⟩ <;>
      by_cases same : other = point <;>
      simp [addEntry, createCell, UTXODiff.cell, held, coin, same]
  | false =>
    cases added : mud.toAdd.get point with
    | none =>
      refine ⟨fun other => ?_, by simp [addEntry, UTXODiff.cell, held, added]⟩
      by_cases same : other = point <;>
        simp [addEntry, createCell, UTXODiff.cell, held, added, same]
    | some existing =>
      have kept := @eq_of_sameCoin existing entry
      cases coin : sameCoin (some existing) (some entry) <;>
        cases score : sameDAAScore (some existing) (some entry) <;> refine ⟨fun other => ?_,
          by simp [addEntry, UTXODiff.cell, held, added, coin, score]⟩ <;>
        by_cases same : other = point <;>
        simp [addEntry, createCell, UTXODiff.cell, held, added, coin, score, same]
      exact kept coin ((sameDAAScore_some existing entry).mp score)

/-- The outcomes of `removeEntry` for a resolved input. -/
theorem removeEntry_cases : (∀ other, (mud.removeEntry point (some entry)).1.cell other =
      if other = point then spendCell (mud.cell point) entry
      else mud.cell other) ∧ ((mud.removeEntry point (some entry)).2 = none ↔
      holds UTXOEntry.blockDAAScore (mud.cell point).add
          entry.blockDAAScore = true ∨ (mud.cell point).remove = none) := by
  cases held : holds UTXOEntry.blockDAAScore (mud.toAdd.get point) entry.blockDAAScore with
  | true =>
    cases coin : sameCoin (mud.toAdd.get point) (some entry) <;> refine ⟨fun other => ?_,
        by simp [removeEntry, UTXODiff.cell, held, coin]⟩ <;>
      by_cases same : other = point <;>
      simp [removeEntry, spendCell, UTXODiff.cell, held, coin, same]
  | false =>
    cases gone : mud.toRemove.get point
    all_goals
      refine ⟨fun other => ?_,
        by simp [removeEntry, UTXODiff.cell, UTXOCollection.contains, held, gone]⟩
      by_cases same : other = point <;> simp [removeEntry, spendCell, UTXODiff.cell,
        UTXOCollection.contains, held, gone, same]

theorem cell_addEntry (point other : DomainOutpoint) (entry : UTXOEntry) :
    (mud.addEntry point entry).1.cell other =
      if other = point then createCell (mud.cell point) entry
      else mud.cell other :=
  (mud.addEntry_cases point entry).1 other

theorem cell_removeEntry (point other : DomainOutpoint) (entry : UTXOEntry) :
    (mud.removeEntry point (some entry)).1.cell other =
      if other = point then spendCell (mud.cell point) entry
      else mud.cell other :=
  (mud.removeEntry_cases point entry).1 other

end

theorem get_restoreCollection (collection : UTXOCollection) (point other : DomainOutpoint)
    (entry : Option UTXOEntry) : (restoreCollection collection point entry).get other =
      if other = point then entry else collection.get other := by
  cases entry with
  | none => exact UTXOCollection.get_remove collection point other
  | some value => exact UTXOCollection.get_add collection point other value

theorem cell_restore (mud : MutableUTXODiff) (undo : UndoEntry)
    (point : DomainOutpoint) : (mud.restore undo).cell point =
      if point = undo.outpoint then ⟨undo.toAddEntry, undo.toRemoveEntry⟩
      else mud.cell point := by
  simp only [restore, UTXODiff.cell, get_restoreCollection]
  split_ifs <;> rfl

/-! ### The rule of `addTransaction` -/

section Rule

variable {Inv : MutableUTXODiff → List UndoEntry → Prop} {Err : DiffError → Prop}

/--
What a mutation leaves under an undo log: the invariant holds, and its error is
an allowed one.
-/
def Stepped (Inv : MutableUTXODiff → List UndoEntry → Prop) (Err : DiffError → Prop)
    (undoLog : List UndoEntry) (outcome : MutableUTXODiff × Option DiffError) : Prop :=
  Inv outcome.1 undoLog ∧ ∀ err, outcome.2 = some err → Err err

/-- What a loop leaves: the diff of its last step, aborted after an error. -/
def Ended (Inv : MutableUTXODiff → List UndoEntry → Prop) (Err : DiffError → Prop)
    (mud : MutableUTXODiff) (undoLog : List UndoEntry) : Option DiffError → Prop
  | none => Inv mud undoLog
  | some err => Err err ∧ ∃ last, Inv last undoLog ∧ mud = last.abort undoLog err

theorem removeInputs_ended {skips : Bool} {inputs : List DomainTransactionInput}
    (gone : ∀ mud undo, ∀ input ∈ inputs, Inv mud undo → (skips && input.utxoEntry.isNone) = false →
    Stepped Inv Err (undo ++ [mud.snapshot input.previousOutpoint])
    (mud.removeEntry input.previousOutpoint input.utxoEntry)) (mud : MutableUTXODiff)
    (undo : List UndoEntry) (holds : Inv mud undo) :
    Ended Inv Err (removeInputs skips inputs mud undo).1 (removeInputs skips inputs mud undo).2.1
    (removeInputs skips inputs mud undo).2.2 := by
  induction inputs generalizing mud undo with
  | nil => exact holds
  | cons input rest ih =>
    have later := ih fun mud undo other mem => gone mud undo other (.tail input mem)
    rw [removeInputs]
    split_ifs with skipped
    · exact later mud undo holds
    have step := gone mud undo input (.head rest) holds (Bool.eq_false_of_not_eq_true skipped)
    generalize mud.removeEntry input.previousOutpoint input.utxoEntry = outcome at step ⊢
    rcases outcome with ⟨next, _ | err⟩
    · exact later next _ step.1
    · exact ⟨step.2 err rfl, next, step.1, rfl⟩

theorem addOutputs_ended (tooLarge : ∀ index, Err (.outputIndexTooLarge index))
    (added : ∀ mud undo point entry, Inv mud undo → Stepped Inv Err (undo ++ [mud.snapshot point])
    (mud.addEntry point entry)) (transactionID : DomainTransactionID) (coinbase : Bool)
    (score : UInt64) (index : Nat) (outputs : List DomainTransactionOutput) (mud : MutableUTXODiff)
    (undo : List UndoEntry) (holds : Inv mud undo) : ∃ undoLog',
    Ended Inv Err (addOutputs transactionID coinbase score index outputs mud undo).1 undoLog'
    (addOutputs transactionID coinbase score index outputs mud undo).2 := by
  induction outputs generalizing index mud undo with
  | nil => exact ⟨undo, holds⟩
  | cons output rest ih =>
    rw [addOutputs]
    split_ifs
    · exact ⟨undo, tooLarge index, mud, holds, rfl⟩
    have step := added mud undo ⟨transactionID, UInt32.ofNat index⟩
      (newUTXOEntry output coinbase score) holds
    dsimp only
    generalize mud.addEntry ⟨transactionID, UInt32.ofNat index⟩
      (newUTXOEntry output coinbase score) = outcome at step ⊢
    rcases outcome with ⟨next, _ | err⟩
    · exact ih (index + 1) next _ step.1
    · exact ⟨_, step.2 err rfl, next, step.1, rfl⟩

/--
What holds of a diff and its undo log at the start of `addTransaction` and
after each mutation holds of the last diff of the call, which is the result or
what the result was aborted from.
-/
theorem addTransaction_ended (Inv : MutableUTXODiff → List UndoEntry → Prop)
    (Err : DiffError → Prop) {tx : DomainTransaction} {skips : Bool}
    (gone : ∀ mud undo, ∀ input ∈ tx.inputs, Inv mud undo → (skips && input.utxoEntry.isNone) =
    false → Stepped Inv Err (undo ++ [mud.snapshot input.previousOutpoint])
    (mud.removeEntry input.previousOutpoint input.utxoEntry))
    (tooLarge : ∀ index, Err (.outputIndexTooLarge index))
    (added : ∀ mud undo point entry, Inv mud undo → Stepped Inv Err (undo ++ [mud.snapshot point])
    (mud.addEntry point entry)) (mud : MutableUTXODiff) (score : UInt64) (holds : Inv mud []) :
    ∃ undo, Ended Inv Err (mud.addTransaction tx score skips).1 undo
    (mud.addTransaction tx score skips).2 := by
  have inputsEnded := removeInputs_ended gone mud [] holds
  rw [addTransaction]
  generalize removeInputs skips tx.inputs mud [] = outcome at inputsEnded ⊢
  rcases outcome with ⟨next, undo, _ | _⟩
  · exact addOutputs_ended tooLarge added tx.id tx.isCoinBase
      score 0 tx.outputs next undo inputsEnded
  · exact ⟨undo, inputsEnded⟩

end Rule

section Invariant

variable {Good : MutableUTXODiff → Prop} {GoodUndo : UndoEntry → Prop}

theorem rollback_preserves (restored : ∀ mud undo, Good mud → GoodUndo undo →
      Good (mud.restore undo)) (undoLog : List UndoEntry) (mud : MutableUTXODiff) (good : Good mud)
    (goodLog : ∀ undo ∈ undoLog, GoodUndo undo) : Good (mud.rollback undoLog) := by
  induction undoLog with
  | nil => exact good
  | cons undo rest ih =>
    have goodRest := ih fun other mem => goodLog other (.tail undo mem)
    exact restored _ undo goodRest (goodLog undo (.head _))

/--
What is kept by adding an entry, by removing one and by restoring a snapshot
of a good diff is kept by `addTransaction`, whether it succeeds, fails and
rolls back, or panics.
-/
theorem addTransaction_preserves (Good : MutableUTXODiff → Prop) (GoodUndo : UndoEntry → Prop)
    (snapshots : ∀ mud point, Good mud → GoodUndo (mud.snapshot point))
    (restored : ∀ mud undo, Good mud → GoodUndo undo → Good (mud.restore undo))
    (gone : ∀ mud point entry, Good mud → Good (mud.removeEntry point entry).1)
    (added : ∀ mud point entry, Good mud → Good (mud.addEntry point entry).1)
    (mud : MutableUTXODiff) (tx : DomainTransaction) (score : UInt64) (skips : Bool)
    (good : Good mud) : Good (mud.addTransaction tx score skips).1 := by
  have extend : ∀ mud undoLog point, Good mud → (∀ undo ∈ undoLog, GoodUndo undo) →
      ∀ undo ∈ undoLog ++ [mud.snapshot point], GoodUndo undo := by
    intro mud undoLog point good goodLog undo mem
    rcases List.mem_append.mp mem with old | new
    · exact goodLog undo old
    · rw [List.mem_singleton.mp new]
      exact snapshots mud point good
  rcases addTransaction_ended (fun mud undoLog => Good mud ∧ ∀ undo ∈ undoLog, GoodUndo undo)
    (fun _ => True) (fun _ _ _ _ holds _ => ⟨⟨gone _ _ _ holds.1, extend _ _ _ holds.1 holds.2⟩,
    fun _ _ => trivial⟩) (fun _ => trivial) (fun _ _ _ _ holds =>
    ⟨⟨added _ _ _ holds.1, extend _ _ _ holds.1 holds.2⟩, fun _ _ => trivial⟩) mud score
    ⟨good, nofun⟩ with ⟨undoLog, ended⟩
  generalize mud.addTransaction tx score skips = outcome at ended ⊢
  rcases outcome with ⟨_, _ | err⟩
  · exact ended.1
  rcases ended with ⟨-, last, ⟨goodLast, goodLog⟩, rfl⟩
  have rolledBack := rollback_preserves restored undoLog last goodLast goodLog
  cases err with
  | nilEntryDereference => exact goodLast
  | cannotAddTwice | cannotRemoveTwice | outputIndexTooLarge | conflict
  | addedTwiceRemovedOnce | invalidated => exact rolledBack

end Invariant

/-! ### A failed call -/

/-- A rollback reads a diff cell by cell. -/
theorem cell_rollback_congr {mud other : MutableUTXODiff}
    (agree : ∀ point, mud.cell point = other.cell point) (undoLog : List UndoEntry)
    (point : DomainOutpoint) : (mud.rollback undoLog).cell point = (other.rollback undoLog).cell
    point := by
  induction undoLog with
  | nil => exact agree point
  | cons undo rest ih =>
    change ((mud.rollback rest).restore undo).cell point =
      ((other.rollback rest).restore undo).cell point
    rw [cell_restore, cell_restore, ih]

/-- The newest snapshot undoes a mutation of its outpoint. -/
theorem rollback_snapshot {mud next : MutableUTXODiff} {point : DomainOutpoint}
    (apart : ∀ other, other ≠ point → next.cell other = mud.cell other)
    (undo : List UndoEntry) (other : DomainOutpoint) :
    (next.rollback (undo ++ [mud.snapshot point])).cell other = (mud.rollback undo).cell other := by
  rw [rollback, List.foldr_append]
  refine cell_rollback_congr (fun place => ?_) undo other
  rw [List.foldr_cons, cell_restore]
  split_ifs with same
  · rw [same]
    rfl
  · exact apart place same

theorem addEntry_ne_nil (mud : MutableUTXODiff) (point : DomainOutpoint) (entry : UTXOEntry) :
    (mud.addEntry point entry).2 ≠ some .nilEntryDereference := by
  rw [addEntry]
  split_ifs
  · simp
  · simp
  · split
    · split_ifs <;> simp
    · simp

/-- A call that meets no unresolved input and fails has rolled back. -/
theorem cell_addTransaction_of_err {mud next : MutableUTXODiff} {tx : DomainTransaction}
    {score : UInt64} {skips : Bool} {err : DiffError} (resolved : ∀ input ∈ tx.inputs,
    (skips && input.utxoEntry.isNone) = false → input.utxoEntry.isSome)
    (failed : mud.addTransaction tx score skips = (next, some err)) (point : DomainOutpoint) :
    next.cell point = mud.cell point := by
  rcases addTransaction_ended (fun last undo => ∀ point,
      (last.rollback undo).cell point = mud.cell point) (fun err => err ≠ .nilEntryDereference)
    (fun last undo input mem holds taken => by
      rcases Option.isSome_iff_exists.mp (resolved input mem taken) with ⟨entry, isEntry⟩
      rw [isEntry]
      refine ⟨fun place => ?_, fun err isErr panicked => by
        rw [panicked, removeEntry] at isErr
        split_ifs at isErr
        cases isErr⟩
      rw [← holds place]
      refine rollback_snapshot (fun other ne => ?_) undo place
      rw [cell_removeEntry, if_neg ne])
    (fun _ => nofun)
    (fun last undo _ entry holds => by
      refine ⟨fun place => ?_, fun err isErr panicked =>
        last.addEntry_ne_nil _ entry (panicked ▸ isErr)⟩
      rw [← holds place]
      refine rollback_snapshot (fun other ne => ?_) undo place
      rw [cell_addEntry, if_neg ne])
    mud score (fun _ => rfl) with ⟨undo, ended⟩
  rw [failed] at ended
  rcases ended with ⟨returned, last, holds, rfl⟩
  cases err with
  | nilEntryDereference => exact absurd rfl returned
  | cannotAddTwice | cannotRemoveTwice | outputIndexTooLarge | conflict
  | addedTwiceRemovedOnce | invalidated => exact holds point

end MutableUTXODiff

end Htnd.Utxo.MutableDiff
