import Htnd.Utxo.DiffRun

/-!
# What a transaction does to the view of a diff

The purpose of `AddTransaction` is to keep a diff describing a set of unspent
outputs: the resolved inputs leave the set and the outputs enter it, stamped
with the DAA score of the accepting block.  This module states that purpose,
characterises a successful call outpoint by outpoint, and finds exactly when
the call meets it.

Two shapes go wrong, because `addEntry` and `removeEntry` never look at the
base.  A base coin that was restamped is pending in `toAdd` with no removal
of the base coin; spending it drops the pending entry and the base coin shows
through again.  And an output whose own entry is still pending for removal
cancels that removal while an older restamp stays in `toAdd`.
-/

namespace Htnd.Utxo.TransactionView

open Lib.StampedCell Entry MutableDiff UtxoSet DiffRun List MutableUTXODiff
  Option

/-! ## The purpose of a transaction -/

/-- The inputs that carry an entry, with that entry. -/
def resolvedInputs (inputs : List DomainTransactionInput) : List (DomainOutpoint × UTXOEntry) :=
  inputs.filterMap fun input => input.utxoEntry.map fun entry => (input.previousOutpoint, entry)

theorem resolvedInputs_cons (input : DomainTransactionInput)
    (rest : List DomainTransactionInput) : resolvedInputs (input :: rest) =
      match input.utxoEntry with
      | none => resolvedInputs rest
      | some entry => (input.previousOutpoint, entry) :: resolvedInputs rest := by
  cases carried : input.utxoEntry with
  | none => simp [resolvedInputs, carried]
  | some entry => simp [resolvedInputs, carried]

/-- The outpoints of the resolved inputs. -/
def spentOutpoints (transaction : DomainTransaction) : List DomainOutpoint :=
  (resolvedInputs transaction.inputs).map Prod.fst

/-- The entry a transaction creates at an outpoint, if it has that output. -/
def createdEntry (transaction : DomainTransaction) (blockDAAScore : UInt64)
    (outpoint : DomainOutpoint) : Option UTXOEntry :=
  if outpoint.transactionID = transaction.id then
    (transaction.outputs[outpoint.index.toNat]?).map fun output =>
      MutableUTXODiff.newUTXOEntry output transaction.isCoinBase blockDAAScore
  else none

/-- A set without the resolved inputs of a transaction. -/
def withoutInputs (set : UTXOSet) (transaction : DomainTransaction) : UTXOSet :=
  fun outpoint =>
    if outpoint ∈ spentOutpoints transaction then none else set outpoint

/-- The set after a transaction: inputs removed, then outputs written. -/
def applyTransaction (set : UTXOSet) (transaction : DomainTransaction)
    (blockDAAScore : UInt64) : UTXOSet :=
  fun outpoint => (createdEntry transaction blockDAAScore outpoint).or
    (withoutInputs set transaction outpoint)

/-- The resolved inputs are distinct and carry the entries the set holds. -/
def SpendsFrom (set : UTXOSet) (transaction : DomainTransaction) : Prop :=
  (spentOutpoints transaction).Nodup ∧ ∀ spend ∈ resolvedInputs transaction.inputs,
    set spend.1 = some spend.2

/-! ## One cell under a spend and under a creation -/

/-- `removeEntry` succeeds on this cell. -/
def Spendable (cell : Cell UTXOEntry) (entry : UTXOEntry) : Prop :=
  holds UTXOEntry.blockDAAScore cell.add entry.blockDAAScore = true ∨ cell.remove = none

/-- `addEntry` succeeds on this cell. -/
def Creatable (cell : Cell UTXOEntry) (entry : UTXOEntry) : Prop :=
  holds UTXOEntry.blockDAAScore cell.remove entry.blockDAAScore = true ∨
    cell.add = none ∨ sameCoin cell.add (some entry) = true

variable {cell : Cell UTXOEntry} {entry : UTXOEntry} {mud next : MutableUTXODiff} {skips : Bool}
  {daaScore : UInt64} {base : UTXOSet}

/-- Spending the entry a cell shows removes it from whichever side has it. -/
theorem spendCell_of_view {base : Option UTXOEntry} (shown : cell.apply base = some entry) :
    (cell.add = some entry ∧ spendCell cell entry = ⟨none, cell.remove⟩) ∨
    (cell = ⟨none, none⟩ ∧ base = some entry ∧ spendCell cell entry = ⟨none, some entry⟩) := by
  rcases cell with ⟨_ | _, _ | _⟩
  · refine .inr ⟨rfl, shown, ?_⟩
    simp [spendCell]
  · cases shown
  · cases shown
    simp [spendCell]
  · cases shown
    simp [spendCell]

/--
The spent entry is gone unless it was pending over a base coin that is not
itself removed.
-/
theorem spendCell_apply {base : Option UTXOEntry} (shown : cell.apply base = some entry) :
    (spendCell cell entry).apply base = none ↔
    ¬ (cell.add.isSome ∧ cell.remove = none ∧ base.isSome) := by
  rcases spendCell_of_view shown with ⟨added, spent⟩ | ⟨rfl, -, spent⟩
  · rw [spent]
    cases gone : cell.remove with
    | none => simp [added]
    | some value => simp
  · rw [spent]
    simp

/-- Both the coin and the score agree exactly for the entry itself. -/
theorem holds_and_sameCoin {slot : Option UTXOEntry} :
    (holds UTXOEntry.blockDAAScore slot entry.blockDAAScore = true ∧ sameCoin slot (some entry) =
    true) ↔ slot = some entry := by
  cases slot with
  | none => simp
  | some value =>
    constructor
    · rintro ⟨held, same⟩
      have score : value.blockDAAScore = entry.blockDAAScore := by simpa using held
      rw [eq_of_sameCoin same score]
    · intro isEntry
      cases isEntry
      exact ⟨by simp, (sameCoin_some _ _).mpr ⟨rfl, rfl, rfl⟩⟩

/-- What a successful creation leaves: the cancelled removal is special. -/
theorem create_of_creatable (fresh : Creatable cell entry) :
    createCell cell entry = if cell.remove = some entry then ⟨cell.add, none⟩
      else if holds UTXOEntry.blockDAAScore cell.remove
        entry.blockDAAScore = true then ⟨some entry, none⟩
      else ⟨some entry, cell.remove⟩ := by
  by_cases pending : cell.remove = some entry
  · have cancelled := holds_and_sameCoin.mpr pending
    rw [if_pos pending, createCell, if_pos cancelled.1, if_pos cancelled.2]
  rw [if_neg pending, createCell]
  by_cases held : holds UTXOEntry.blockDAAScore cell.remove entry.blockDAAScore = true
  · have otherCoin : ¬ sameCoin cell.remove (some entry) = true :=
      fun same => pending (holds_and_sameCoin.mp ⟨held, same⟩)
    rw [if_pos held, if_pos held, if_neg otherCoin]
  · rw [if_neg held, if_neg held, if_pos (fresh.resolve_left held)]

/--
The created entry shows unless its own removal was pending and something
else shows once that removal is cancelled.
-/
theorem createCell_apply {base : Option UTXOEntry} (fresh : Creatable cell entry) :
    (createCell cell entry).apply base = some entry ↔
    (cell.remove = some entry → cell.add.or base = some entry) := by
  rw [create_of_creatable fresh]
  split_ifs with pending held
  · cases cell.add <;> simp [pending]
  · simp [pending]
  · simp [pending]

/-! ## The loops of a successful call -/

variable {undo : List MutableUTXODiff.UndoEntry}

/--
The inputs of a successful call, with distinct outpoints, spend one cell each
and leave every other cell alone.
-/
theorem removeInputs_success {inputs : List DomainTransactionInput}
    {nextLog : List MutableUTXODiff.UndoEntry} (isOk : MutableUTXODiff.removeInputs skips inputs mud
    undo = (next, nextLog, none)) (nodup : ((resolvedInputs inputs).map Prod.fst).Nodup) :
    (∀ point, point ∉ (resolvedInputs inputs).map Prod.fst →
      next.cell point = mud.cell point) ∧ ∀ spend ∈ resolvedInputs inputs,
      next.cell spend.1 = spendCell (mud.cell spend.1) spend.2 ∧
        Spendable (mud.cell spend.1) spend.2 := by
  induction inputs generalizing mud undo with
  | nil =>
    cases isOk
    exact ⟨fun _ _ => rfl, nofun⟩
  | cons input rest ih =>
    rw [removeInputs] at isOk
    rw [resolvedInputs_cons] at nodup ⊢
    cases carried : input.utxoEntry with
    | none =>
      rw [carried] at isOk nodup
      cases skips with
      | true => exact ih isOk nodup
      | false => cases isOk
    | some entry =>
      rw [carried] at nodup
      rw [map_cons, nodup_cons] at nodup
      simp only [carried, isNone_some, Bool.and_false] at isOk
      have cells := mud.cell_removeEntry input.previousOutpoint
      have spendable := (mud.removeEntry_cases input.previousOutpoint entry).2
      cases outcome : mud.removeEntry input.previousOutpoint (some entry) with
      | mk middle err =>
        have middleCells : ∀ other, middle.cell other =
            if other = input.previousOutpoint then
              spendCell (mud.cell input.previousOutpoint) entry
            else mud.cell other := by
          intro other
          have cell := cells other entry
          rwa [outcome] at cell
        rw [outcome] at isOk spendable
        cases err with
        | some err => cases isOk
        | none =>
          rcases ih isOk nodup.2 with ⟨frame, spent⟩
          constructor
          · intro point notSpent
            rw [map_cons, mem_cons, not_or] at notSpent
            rw [frame point notSpent.2, middleCells, if_neg notSpent.1]
          · intro spend mem
            rcases mem_cons.mp mem with rfl | inRest
            · refine ⟨?_, spendable.mp rfl⟩
              rw [frame _ nodup.1, middleCells, if_pos rfl]
            have ne : spend.1 ≠ input.previousOutpoint := by
              intro same
              have inKeys : spend.1 ∈ (resolvedInputs rest).map Prod.fst := mem_map_of_mem inRest
              exact nodup.1 (same ▸ inKeys)
            rcases spent spend inRest with ⟨cell, restSpendable⟩
            rw [middleCells, if_neg ne] at cell
            rw [middleCells, if_neg ne] at restSpendable
            exact ⟨cell, restSpendable⟩

/-- The entry the outputs from position `index` on create at an outpoint. -/
def createdFrom (transactionID : DomainTransactionID) (isCoinbase : Bool)
    (blockDAAScore : UInt64) (index : Nat)
    (outputs : List DomainTransactionOutput) (outpoint : DomainOutpoint) : Option UTXOEntry :=
  if outpoint.transactionID = transactionID ∧ index ≤ outpoint.index.toNat then
    (outputs[outpoint.index.toNat - index]?).map fun output =>
      MutableUTXODiff.newUTXOEntry output isCoinbase blockDAAScore
  else none

variable {transactionID : DomainTransactionID} {coinbase : Bool} {index : Nat}

theorem createdFrom_cons (small : index < 2 ^ 32) (output : DomainTransactionOutput)
    (rest : List DomainTransactionOutput) (point : DomainOutpoint) :
    createdFrom transactionID coinbase daaScore index (output :: rest) point =
      if point = ⟨transactionID, UInt32.ofNat index⟩ then
        some (MutableUTXODiff.newUTXOEntry output coinbase daaScore)
      else createdFrom transactionID coinbase daaScore (index + 1) rest point := by
  rcases point with ⟨id, place⟩
  have toNat := UInt32.toNat_ofNat_of_lt' small
  have atIndex : place = UInt32.ofNat index ↔ place.toNat = index := by
    rw [← UInt32.toNat_inj, toNat]
  simp only [createdFrom, DomainOutpoint.mk.injEq, atIndex]
  by_cases sameID : id = transactionID
  · rcases Nat.lt_trichotomy place.toNat index with _ | equal | _
    · have notReached : ¬ index ≤ place.toNat := by omega
      have notReachedNext : ¬ index + 1 ≤ place.toNat := by omega
      have ne : place.toNat ≠ index := by omega
      simp [notReached, notReachedNext, ne]
    · simp [equal]
    have meets : index ≤ place.toNat := by omega
    have reachedNext : index + 1 ≤ place.toNat := by omega
    have ne : place.toNat ≠ index := by omega
    have shift : place.toNat - index = (place.toNat - (index + 1)) + 1 := by omega
    simp [sameID, meets, reachedNext, ne, shift]
  · simp [sameID]

/-- Later outputs create nothing at the outpoint of an earlier one. -/
theorem createdFrom_succ_self (small : index < 2 ^ 32) (rest : List DomainTransactionOutput) :
    createdFrom transactionID coinbase daaScore (index + 1) rest ⟨transactionID, UInt32.ofNat index⟩
    = none := by
  rw [createdFrom, if_neg]
  rintro ⟨-, meets⟩
  rw [UInt32.toNat_ofNat_of_lt' small] at meets
  omega

/-- The outputs of a successful call create one cell each. -/
theorem addOutputs_success {outputs : List DomainTransactionOutput}
    (isOk : MutableUTXODiff.addOutputs transactionID coinbase daaScore index outputs mud undo =
    (next, none)) : ∀ point, (createdFrom transactionID coinbase daaScore index outputs point =
    none → next.cell point = mud.cell point) ∧ ∀ entry, createdFrom transactionID coinbase daaScore
    index outputs point = some entry →
        next.cell point = createCell (mud.cell point) entry ∧ Creatable (mud.cell point) entry := by
  induction outputs generalizing index mud undo with
  | nil =>
    cases isOk
    intro point
    have nothing : createdFrom transactionID coinbase daaScore index [] point = none := by
      simp [createdFrom]
    rw [nothing]
    exact ⟨fun _ => rfl, fun _ impossible => by cases impossible⟩
  | cons output rest ih =>
    rw [addOutputs] at isOk
    have small : index < 2 ^ 32 := by
      by_contra large
      rw [if_pos (by omega)] at isOk
      cases isOk
    rw [if_neg (by omega)] at isOk
    dsimp only at isOk
    have cells := mud.cell_addEntry ⟨transactionID, UInt32.ofNat index⟩
    have fresh := (mud.addEntry_cases ⟨transactionID, UInt32.ofNat index⟩
      (newUTXOEntry output coinbase daaScore)).2
    cases outcome : mud.addEntry ⟨transactionID, UInt32.ofNat index⟩
      (newUTXOEntry output coinbase daaScore) with
    | mk middle err =>
      rw [outcome] at isOk fresh
      cases err with
      | some err => cases isOk
      | none =>
        intro point
        have restStep := ih isOk point
        have middleCell := cells point (newUTXOEntry output coinbase daaScore)
        rw [outcome] at middleCell
        rw [createdFrom_cons small]
        by_cases isHead : point = ⟨transactionID, UInt32.ofNat index⟩
        · rw [if_pos isHead] at middleCell
          rw [if_pos isHead]
          refine ⟨fun impossible => (by cases impossible), ?_⟩
          intro entry isEntry
          cases isEntry
          rw [restStep.1 (isHead ▸ createdFrom_succ_self small rest), middleCell, isHead]
          exact ⟨rfl, fresh.mp rfl⟩
        · rw [if_neg isHead] at middleCell ⊢
          rw [middleCell] at restStep
          exact restStep

variable {tx : DomainTransaction}

/-- A successful call, outpoint by outpoint. -/
theorem add_success (isOk : mud.addTransaction tx daaScore skips = (next, none))
    (nodup : (spentOutpoints tx).Nodup) : ∃ middle : MutableUTXODiff,
    (∀ point, point ∉ spentOutpoints tx → middle.cell point = mud.cell point) ∧
    (∀ spend ∈ resolvedInputs tx.inputs, middle.cell spend.1 = spendCell (mud.cell spend.1) spend.2)
    ∧ (∀ point, createdEntry tx daaScore point = none →
        next.cell point = middle.cell point) ∧ ∀ point entry,
        createdEntry tx daaScore point = some entry →
        next.cell point = createCell (middle.cell point) entry ∧
          Creatable (middle.cell point) entry := by
  have created : ∀ point, createdFrom tx.id tx.isCoinBase daaScore 0 tx.outputs point =
        createdEntry tx daaScore point := by
    simp [createdFrom, createdEntry]
  rw [addTransaction] at isOk
  cases outcome : removeInputs skips tx.inputs mud [] with
  | mk middle rest =>
    rcases rest with ⟨_, _ | _⟩
    · rw [outcome] at isOk
      rcases removeInputs_success outcome nodup with ⟨frame, spent⟩
      have outputs := addOutputs_success isOk
      refine ⟨middle, frame, fun spend mem => (spent spend mem).1, ?_, ?_⟩
      · intro point nothing
        exact (outputs point).1 ((created point).trans nothing)
      · intro point entry isEntry
        exact (outputs point).2 entry ((created point).trans isEntry)
    · rw [outcome] at isOk
      cases isOk

/-! ## When a call meets its purpose -/

/--
The condition at one outpoint under which a successful call records the
transaction exactly, for any diff: a spent coin that stays spent is not
pending over an unremoved base coin, and where the created entry is pending
for removal, the same entry shows once that removal is cancelled.
-/
def RecordsExactlyAt (base : UTXOSet) (diff : UTXODiff)
    (transaction : DomainTransaction) (blockDAAScore : UInt64) (outpoint : DomainOutpoint) : Prop :=
  match createdEntry transaction blockDAAScore outpoint with
  | none => outpoint ∈ spentOutpoints transaction → ¬ ((diff.toAdd.get outpoint).isSome ∧
        diff.toRemove.get outpoint = none ∧ (base outpoint).isSome)
  | some entry => diff.toRemove.get outpoint = some entry →
      if outpoint ∈ spentOutpoints transaction then
        base outpoint = some entry
      else (diff.toAdd.get outpoint).or (base outpoint) = some entry

/-- The view at one outpoint after a successful call. -/
theorem view_at_iff (spends : SpendsFrom (mud.view base) tx)
    (isOk : mud.addTransaction tx daaScore skips = (next, none)) (outpoint : DomainOutpoint) :
    next.view base outpoint = applyTransaction (mud.view base) tx daaScore outpoint ↔
      RecordsExactlyAt base mud.toUTXODiff tx daaScore outpoint := by
  rcases add_success isOk spends.1 with ⟨middle, frame, spent, kept, created⟩
  have spentCell : outpoint ∈ spentOutpoints tx → ∃ entry,
      (mud.cell outpoint).apply (base outpoint) = some entry ∧ middle.cell outpoint =
      spendCell (mud.cell outpoint) entry := by
    intro mem
    rcases mem_map.mp mem with ⟨spend, inInputs, rfl⟩
    exact ⟨spend.2, spends.2 spend inInputs, spent spend inInputs⟩
  rw [RecordsExactlyAt, applyTransaction, UTXODiff.view]
  cases creation : createdEntry tx daaScore outpoint with
  | none =>
    rw [kept outpoint creation, none_or, withoutInputs]
    by_cases mem : outpoint ∈ spentOutpoints tx
    · rcases spentCell mem with ⟨entry, shown, cell⟩
      rw [if_pos mem, cell, spendCell_apply shown]
      exact ⟨fun free _ => free, fun free => free mem⟩
    · rw [if_neg mem, frame outpoint mem]
      exact iff_of_true rfl fun impossible => absurd impossible mem
  | some entry =>
    rcases created outpoint entry creation with ⟨cell, fresh⟩
    rw [cell, some_or, createCell_apply fresh]
    by_cases mem : outpoint ∈ spentOutpoints tx
    · rcases spentCell mem with ⟨_, shown, middleCell⟩
      simp only [if_pos mem]
      rw [middleCell]
      rcases spendCell_of_view shown with ⟨_, spentShape⟩ | ⟨wasEmpty, inBase, spentShape⟩
      · rw [spentShape]
        rfl
      rw [spentShape]
      have notPending : mud.toRemove.get outpoint = none := congrArg Cell.remove wasEmpty
      refine iff_of_true ?_ ?_
      · intro same
        exact inBase.trans same
      · intro pending
        rw [notPending] at pending
        cases pending
    · simp only [if_neg mem]
      rw [frame outpoint mem]
      rfl

/-! ## Runs of transactions over a base -/

/-- A call of `AddTransaction` or `AddOutputsSpendingResolvedInputs`. -/
structure TransactionCall where
  transaction : DomainTransaction
  blockDAAScore : UInt64
  skipMissingInputs : Bool

namespace TransactionCall

def run (call : TransactionCall) (mud : MutableUTXODiff) : MutableUTXODiff × Option DiffError :=
  mud.addTransaction call.transaction call.blockDAAScore call.skipMissingInputs

def applyTo (call : TransactionCall) (set : UTXOSet) : UTXOSet :=
  applyTransaction set call.transaction call.blockDAAScore

/-- The entry the call creates at an outpoint. -/
def created (call : TransactionCall) (outpoint : DomainOutpoint) : Option UTXOEntry :=
  createdEntry call.transaction call.blockDAAScore outpoint

end TransactionCall

/--
Runs of successful calls from the empty diff in which every transaction spends
what the view holds, and every step meets a condition on the diff before it.
-/
inductive LedgerRun (base : UTXOSet) (Allowed : MutableUTXODiff → TransactionCall → Prop) :
    List TransactionCall → MutableUTXODiff → Prop where
  | start : LedgerRun base Allowed [] .newMutableUTXODiff
  | call {calls : List TransactionCall} {mud next : MutableUTXODiff} {call : TransactionCall}
      (before : LedgerRun base Allowed calls mud) (allowed : Allowed mud call)
      (spends : SpendsFrom (mud.view base) call.transaction)
      (success : call.run mud = (next, none)) : LedgerRun base Allowed (calls ++ [call]) next

/--
The condition under which a call of a run meets its purpose: no input that
stays spent is pending in `toAdd` over a base coin that is not in `toRemove`,
and no fresh output finds its own entry in `toRemove` while `toAdd` holds the
outpoint.
-/
structure RecordsCall (base : UTXOSet) (mud : MutableUTXODiff) (call : TransactionCall) : Prop where
  spends : ∀ outpoint ∈ spentOutpoints call.transaction, call.created outpoint = none →
    mud.toAdd.contains outpoint = true → mud.toRemove.contains outpoint = false →
    base outpoint = none
  creates : ∀ outpoint entry, call.created outpoint = some entry →
    outpoint ∉ spentOutpoints call.transaction → mud.toRemove.get outpoint = some entry →
    mud.toAdd.contains outpoint = false

/-- Every pending removal is of the entry the base holds. -/
def RemovesFromBase (base : UTXOSet) (diff : UTXODiff) : Prop :=
  ∀ outpoint entry, diff.toRemove.get outpoint = some entry → base outpoint = some entry

/-- What a successful matching call keeps. -/
theorem call_removesFromBase {call : TransactionCall}
    (removes : RemovesFromBase base mud.toUTXODiff)
    (spends : SpendsFrom (mud.view base) call.transaction) (isOk : call.run mud = (next, none)) :
    RemovesFromBase base next.toUTXODiff := by
  rcases add_success isOk spends.1 with ⟨middle, frame, spent, kept, created⟩
  have middleRemoves : RemovesFromBase base middle.toUTXODiff := by
    intro point entry pending
    change (middle.cell point).remove = some entry at pending
    by_cases mem : point ∈ spentOutpoints call.transaction
    · rcases mem_map.mp mem with ⟨spend, inInputs, rfl⟩
      rw [spent spend inInputs] at pending
      rcases spendCell_of_view (spends.2 spend inInputs) with ⟨-, shape⟩ | ⟨-, inBase, shape⟩
      · rw [shape] at pending
        exact removes spend.1 entry pending
      · rw [shape] at pending
        cases pending
        exact inBase
    · rw [frame point mem] at pending
      exact removes point entry pending
  intro point entry pending
  change (next.cell point).remove = some entry at pending
  cases creation : createdEntry call.transaction call.blockDAAScore point with
  | none =>
    rw [kept point creation] at pending
    exact middleRemoves point entry pending
  | some newEntry =>
    rcases created point newEntry creation with ⟨cell, fresh⟩
    rw [cell, create_of_creatable fresh] at pending
    split_ifs at pending
    exact middleRemoves point entry pending

theorem ledgerRun_invariant {Allowed : MutableUTXODiff → TransactionCall → Prop}
    {calls : List TransactionCall} {mud : MutableUTXODiff}
    (meets : LedgerRun base Allowed calls mud) :
    RemovesFromBase base mud.toUTXODiff ∧ mud.Separated := by
  induction meets with
  | start =>
    constructor
    · nofun
    · nofun
  | @call calls mud next call before may spends isOk ih =>
    refine ⟨call_removesFromBase ih.1 spends isOk, ?_⟩
    have separated := addTransaction_sep ih.2 call.transaction
      call.blockDAAScore call.skipMissingInputs
    rw [TransactionCall.run] at isOk
    rw [isOk] at separated
    exact separated

/-- Along runs the condition at every outpoint is the condition on the call. -/
theorem recordsExactlyAt_iff_recordsCall {mud : MutableUTXODiff}
    (removes : RemovesFromBase base mud.toUTXODiff) (sep : mud.Separated) (call : TransactionCall) :
    (∀ point, RecordsExactlyAt base mud.toUTXODiff call.transaction call.blockDAAScore point) ↔
    RecordsCall base mud call := by
  constructor
  · intro records
    constructor
    · intro point mem nothing added kept
      have here := records point
      rw [TransactionCall.created] at nothing
      rw [RecordsExactlyAt, nothing] at here
      by_contra held
      exact here mem ⟨added, by simpa [UTXOCollection.contains] using
        kept, isSome_iff_ne_none.mpr held⟩
    · intro point entry isEntry fresh pending
      have here := records point
      rw [TransactionCall.created] at isEntry
      rw [RecordsExactlyAt, isEntry] at here
      have shown := here pending
      rw [if_neg fresh] at shown
      cases added : mud.toAdd.get point with
      | none => simp [UTXOCollection.contains, added]
      | some other =>
        rw [added] at shown
        cases shown
        exact absurd rfl (sep point entry entry added pending)
  · intro records point
    rw [RecordsExactlyAt]
    cases creation : createdEntry call.transaction call.blockDAAScore point with
    | none =>
      rintro mem ⟨added, kept, held⟩
      have vacant := records.spends point mem creation added
        (by simp [UTXOCollection.contains, kept])
      rw [vacant] at held
      cases held
    | some entry =>
      intro pending
      have inBase := removes point entry pending
      split_ifs with mem
      · exact inBase
      · have notAdded := records.creates point entry creation mem pending
        have nothing : mud.toAdd.get point = none := by
          simpa [UTXOCollection.contains] using notAdded
        rw [nothing, none_or, inBase]

/--
In every run, a successful call that spends what the view holds takes the view
to the view after the transaction if and only if the condition holds; and a
run whose calls all meet the condition ends in the view obtained by applying
its transactions to the base in order.
-/
theorem addTransaction_view_exact (base : UTXOSet) :
    (∀ calls mud, LedgerRun base (fun _ _ => True) calls mud →
      ∀ call next, SpendsFrom (mud.view base) call.transaction → call.run mud = (next, none) →
        (next.view base = call.applyTo (mud.view base) ↔ RecordsCall base mud call)) ∧
    (∀ calls mud, LedgerRun base (RecordsCall base) calls mud → mud.view base =
        calls.foldl (fun set call => call.applyTo set) base) := by
  have step : ∀ mud, RemovesFromBase base mud.toUTXODiff → mud.Separated → ∀ call next,
      SpendsFrom (mud.view base) call.transaction → call.run mud = (next, none) →
      (next.view base = call.applyTo (mud.view base) ↔ RecordsCall base mud call) := by
    intro mud removes separated call next spends isOk
    rw [← recordsExactlyAt_iff_recordsCall removes separated call, funext_iff]
    exact forall_congr' fun point => view_at_iff spends isOk point
  constructor
  · intro calls mud reached
    rcases ledgerRun_invariant reached with ⟨removes, separated⟩
    exact step mud removes separated
  · intro calls mud reached
    induction reached with
    | start => exact UTXODiff.view_empty base
    | call before allowed spends isOk ih =>
      rcases ledgerRun_invariant before with ⟨removes, separated⟩
      rw [foldl_append, ← ih]
      exact (step _ removes separated _ _ spends isOk).mpr allowed

/-- The call that mints the coinbase coin at a DAA score. -/
def mintCall (daaScore : UInt64) : TransactionCall := ⟨mintCoinbase, daaScore, false⟩

/-- The call that spends the coinbase coin accepted at a DAA score. -/
def spendCall (daaScore : UInt64) : TransactionCall := ⟨spendCoinbase daaScore, 8, false⟩

theorem mint_spendsFrom (set : UTXOSet) : SpendsFrom set mintCoinbase := ⟨nodup_nil, nofun⟩

theorem spend_spendsFrom {set : UTXOSet} {daaScore : UInt64}
    (held : set coinbaseOutpoint = some (coinbaseCoin daaScore)) :
    SpendsFrom set (spendCoinbase daaScore) := by
  refine ⟨nodup_singleton _, ?_⟩
  intro _ mem
  rw [mem_singleton.mp mem]
  exact held

/--
The base holds the coin at score 5.  It is restamped to 7 and then spent, and
both calls succeed; but the view still holds the coin, at score 5.
-/
theorem addTransaction_resurrects_restamped_coin : ∃ restamped spent : MutableUTXODiff,
      LedgerRun (coinbaseSet 5) (fun _ _ => True) [mintCall 7] restamped ∧
      SpendsFrom (restamped.view (coinbaseSet 5)) (spendCoinbase 7) ∧
      (spendCall 7).run restamped = (spent, none) ∧
      spent.view (coinbaseSet 5) coinbaseOutpoint = some (coinbaseCoin 5) ∧
      (spendCall 7).applyTo (restamped.view (coinbaseSet 5)) coinbaseOutpoint = none := by
  refine ⟨((mintCall 7).run .newMutableUTXODiff).1,
    ((spendCall 7).run ((mintCall 7).run .newMutableUTXODiff).1).1, ?_, ?_, rfl, rfl, rfl⟩
  · exact LedgerRun.call LedgerRun.start trivial (mint_spendsFrom _) rfl
  · exact spend_spendsFrom rfl

/--
Over the empty base the coin is minted, restamped and spent; every call meets
the condition.
-/
theorem addTransaction_view_exact_mint_restamp_spend : ∃ mud next : MutableUTXODiff,
      LedgerRun (fun _ => none) (fun _ _ => True) [mintCall 5, mintCall 7] mud ∧
      (spendCall 7).run mud = (next, none) ∧ (next.view (fun _ => none) =
          (spendCall 7).applyTo (mud.view fun _ => none) ↔
        RecordsCall (fun _ => none) mud (spendCall 7)) ∧
      RecordsCall (fun _ => none) mud (spendCall 7) ∧
      next.view (fun _ => none) = [mintCall 5, mintCall 7, spendCall 7].foldl
          (fun set call => call.applyTo set) (fun _ => none) := by
  have records : ∀ mud : MutableUTXODiff, mud.toRemove = ∅ →
      ∀ call, RecordsCall (fun _ => none) mud call := by
    refine fun _ nothingRemoved _ => ⟨fun _ _ _ _ _ => rfl, ?_⟩
    intro _ _ _ _ pending
    rw [nothingRemoved] at pending
    cases pending
  have minted {allowed} (allows : ∀ mud call, RecordsCall (fun _ => none) mud call →
      allowed mud call) : LedgerRun (fun _ => none) allowed ([] ++ [mintCall 5] ++ [mintCall 7])
      ((mintCall 7).run ((mintCall 5).run .newMutableUTXODiff).1).1 :=
      .call (.call .start (allows _ _ (records _ rfl _)) (mint_spendsFrom _) rfl)
      (allows _ _ (records _ rfl _)) (mint_spendsFrom _) rfl
  have anyMinted := @minted (fun _ _ => True) fun _ _ _ => trivial
  refine ⟨_, _, anyMinted, rfl, ?_, records _ rfl _, ?_⟩
  · exact (addTransaction_view_exact fun _ => none).1 _ _ anyMinted
      (spendCall 7) _ (spend_spendsFrom rfl) rfl
  · exact (addTransaction_view_exact fun _ => none).2 _ _
      (.call (minted fun _ _ => id) (records _ rfl _) (spend_spendsFrom rfl) rfl)

end Htnd.Utxo.TransactionView
