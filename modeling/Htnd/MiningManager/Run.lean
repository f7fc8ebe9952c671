import Htnd.MiningManager.Insertion

/-!
# Runs of the mempool

The calls on the mempool from the empty one.  The indexes agree after every
call, as long as no call inserts a transaction that waits in the orphan pool:
only the transaction pool is searched for duplicates, so such a transaction
may come to be in both pools.
-/

namespace Htnd.MiningManager.Run

open Lib.Calls Lib.RangeLoops Utxo.Entry State Mempool PoolLists PoolIndex
open OrphanIndex Removal Consistency Insertion

/-- The calls that change the mempool. -/
inductive Call where
  | validateAndInsertTransaction (transaction : Transaction)
      (isHighPriority allowOrphan isLocalSubmission : Bool)
  | validateAndInsertTransactionReplacement (transaction : Transaction) (isHighPriority : Bool)
  | handleNewBlockTransactions (blockTransactions : List Transaction)
  | removeTransaction (transactionID : DomainTransactionID) (removeRedeemers : Bool)
  | expireOrphanTransactions
  | expireOldTransactions
  | revalidateHighPriorityTransactions

/-- The transaction that a call inserts. -/
def Call.inserts : Call → Option Transaction
  | validateAndInsertTransaction transaction _ _ _ => some transaction
  | validateAndInsertTransactionReplacement transaction _ => some transaction
  | _ => none

/-- What a call does, without what it returns. -/
def Call.perform (env : Environment) : Call → MempoolM Unit
  | validateAndInsertTransaction transaction isHighPriority allowOrphan isLocalSubmission => do
        let _ ← Mempool.validateAndInsertTransaction env transaction
          isHighPriority allowOrphan isLocalSubmission
  | validateAndInsertTransactionReplacement transaction isHighPriority => do
    let _ ← Mempool.validateAndInsertTransactionReplacement env transaction isHighPriority
  | handleNewBlockTransactions blockTransactions => do
    let _ ← Mempool.handleNewBlockTransactions env blockTransactions
  | removeTransaction transactionID removeRedeemers =>
    Mempool.removeTransaction env transactionID removeRedeemers
  | expireOrphanTransactions => Mempool.expireOrphanTransactions env
  | expireOldTransactions => Mempool.expireOldTransactions env
  | revalidateHighPriorityTransactions => do
    let _ ← Mempool.revalidateHighPriorityTransactions env

/-- The mempool after a call, whether the call failed or not. -/
def after (env : Environment) (mp : Mempool) (call : Call) : Mempool :=
  (outcome (call.perform env) mp).2

/-- The mempool after the calls of a run. -/
def run (env : Environment) (calls : List Call) : Mempool := calls.foldl (after env) Mempool.new

/-- What a call inserts has a fee and a mass. -/
def Call.Populated (call : Call) : Prop :=
  ∀ transaction, call.inserts = some transaction → PoolLists.Populated transaction

/-- The call inserts no transaction that waits in the orphan pool. -/
def Call.InsertsNoOrphan (mp : Mempool) (call : Call) : Prop :=
  ∀ transaction, call.inserts = some transaction →
    mp.orphans.allOrphans.lookup transaction.id = none

/-- The maps of the mempool agree with each other. -/
structure IndexesAgree (mp : Mempool) : Prop where
  spends : ∀ outpoint transaction, mp.pool.transactionByPreviousOutpoint.lookup outpoint =
    some transaction ↔ mp.pool.allTransactions.lookup transaction.transactionID = some transaction ∧
    outpoint ∈ transaction.transaction.inputs
  orphanSpends : ∀ outpoint orphan, mp.orphans.orphansByPreviousOutpoint.lookup outpoint =
    some orphan ↔ mp.orphans.allOrphans.lookup orphan.transactionID = some orphan ∧
    outpoint ∈ orphan.transaction.inputs
  apart : ∀ id, mp.pool.allTransactions.lookup id = none ∨ mp.orphans.allOrphans.lookup id = none
  ids : ∀ id transaction, mp.pool.allTransactions.lookup id = some transaction →
    transaction.transactionID = id
  orphanIDs : ∀ id orphan, mp.orphans.allOrphans.lookup id = some orphan → orphan.transactionID = id
  highPriority : ∀ id transaction, mp.pool.highPriorityTransactions.lookup id = some transaction →
    mp.pool.allTransactions.lookup id = some transaction
  orderedByFeeRate : mp.pool.transactionsOrderedByFeeRate.Perm
    (mp.pool.allTransactions.entries.map Sigma.snd)
  chained : ∀ parentID child, child ∈ chainedTo mp.pool.chainedTransactionsByParentID parentID ↔
    mp.pool.allTransactions.lookup child.transactionID = some child ∧ ∃ parent,
    (mp.pool.parentsOf child).lookup parentID = some parent
  chained_nodup : ∀ parentID, (chainedTo mp.pool.chainedTransactionsByParentID parentID).Nodup
  parents : ∀ child parentID parent, mp.pool.allTransactions.lookup child.transactionID =
    some child → (mp.pool.parentsOf child).lookup parentID = some parent →
    mp.pool.allTransactions.lookup parentID = some parent

theorem indexesAgree_of_consistent {feeRate : FeeRate} {mp : Mempool}
    (sound : Consistent feeRate mp) : IndexesAgree mp := by
  have index := sound.pool
  refine ⟨index.spends, sound.orphans.spends, sound.apart,
    index.ids, sound.orphans.ids, index.highPriority, ?_, ?_, index.chained.nodup, ?_⟩
  · have nodup : (mp.pool.allTransactions.entries.map Sigma.snd).Nodup := by
      have isKeys : (mp.pool.allTransactions.entries.map Sigma.snd).map
          MempoolTransaction.transactionID = mp.pool.allTransactions.keys := by
        rw [List.map_map]
        exact Chained.map_id_eq_keys index.ids
      refine List.Nodup.of_map MempoolTransaction.transactionID ?_
      rw [isKeys]
      exact mp.pool.allTransactions.nodupKeys
    rw [List.perm_ext_iff_of_nodup index.listed.nodup nodup]
    intro tx
    rw [index.listed.mem_iff, List.mem_map]
    constructor
    · intro holds
      exact ⟨⟨_, tx⟩, (mem_entries _ ⟨_, _⟩).mpr holds, rfl⟩
    · rintro ⟨item, mem, rfl⟩
      exact index.holds_of_lookup ((mem_entries _ item).mp mem)
  · intro owner child
    rw [index.chained.mem_iff, ← Option.isSome_iff_exists]
    exact and_congr_right fun _ => and_iff_right id
  · intro child owner parent holds link
    rcases index.parents child owner parent holds link with ⟨rfl, gone | parentHolds⟩
    · exact gone.elim
    · exact parentHolds

section Run

variable {env : Environment} {mp : Mempool} {call : Call}

theorem perform_keeps (isInsert : call.inserts = none) :
    Keeps (Consistent env.feeRate) (call.perform env) := by
  cases call with
  | validateAndInsertTransaction | validateAndInsertTransactionReplacement => cases isInsert
  | handleNewBlockTransactions blockTransactions =>
    exact .bind (handleNewBlockTransactions_keeps blockTransactions) fun _ => .pure fun _ => id
  | removeTransaction transactionID redeeming =>
    exact keeps_of_shrinks fun before => removeTx_keeps transactionID redeeming
  | expireOrphanTransactions => exact keeps_of_shrinks fun before => expireOrphanTxs_keeps
  | expireOldTransactions => exact keeps_of_shrinks fun before => expireOld_keeps
  | revalidateHighPriorityTransactions =>
    exact .bind (keeps_of_shrinks fun before => revalidateHighPriorityTransactions_keeps)
      fun _ => .pure fun _ => id

theorem perform_ensures {tx : Transaction} (isInsert : call.inserts = some tx)
    (filled : PoolLists.Populated tx) : Restores env (fun mp => Consistent env.feeRate mp ∧
    mp.orphans.allOrphans.lookup tx.id = none) (call.perform env) := by
  cases call with
  | validateAndInsertTransaction put =>
    cases isInsert
    exact .bind (insertValid_ensures filled
      _ _ _) fun _ => .pure fun _ => id
  | validateAndInsertTransactionReplacement put =>
    cases isInsert
    exact .bind (insertReplacement_ensures filled _) fun _ => .pure fun _ => id
  | handleNewBlockTransactions | removeTransaction
  | expireOrphanTransactions | expireOldTransactions
  | revalidateHighPriorityTransactions => cases isInsert

theorem after_consistent (sound : Consistent env.feeRate mp) (filled : call.Populated)
    (notOrphan : call.InsertsNoOrphan mp) : Consistent env.feeRate (after env mp call) := by
  cases isInsert : call.inserts with
  | none => exact (perform_keeps isInsert).outcome_snd sound
  | some tx =>
    exact (perform_ensures isInsert (filled tx isInsert)).outcome_snd ⟨sound, notOrphan tx isInsert⟩

theorem new_consistent (feeRate : FeeRate) : Consistent feeRate Mempool.new := by
  have notHeld (tx : MempoolTransaction) : ¬ Holds Mempool.new.pool tx := by rintro ⟨⟩
  have notOrphan (orphan : OrphanTransaction) : ¬ HoldsOrphan Mempool.new.orphans orphan := by
    rintro ⟨⟩
  refine ⟨?_, ?_, fun _ => .inl rfl⟩
  · constructor
    · rintro id tx ⟨⟩
    · exact fun tx held => absurd held (notHeld tx)
    · exact fun tx held => absurd held (notHeld tx)
    · exact fun first _ held => absurd held (notHeld first)
    · intro point tx
      constructor
      · rintro ⟨⟩
      · exact fun both => absurd both.1 (notHeld tx)
    · rintro id tx ⟨⟩
    · refine ⟨List.Pairwise.nil, List.nodup_nil, fun tx => ?_⟩
      exact iff_of_false List.not_mem_nil (notHeld tx)
    · refine ⟨fun owner child => ?_, fun owner => List.nodup_nil⟩
      exact iff_of_false List.not_mem_nil fun both => notHeld child both.1
    · exact fun child _ _ held => absurd held (notHeld child)
  · constructor
    · rintro id orphan ⟨⟩
    · exact fun orphan held => absurd held (notOrphan orphan)
    · exact fun orphan held => absurd held (notOrphan orphan)
    · intro point orphan
      constructor
      · rintro ⟨⟩
      · exact fun both => absurd both.1 (notOrphan orphan)

end Run

/-- Every call of the run meets the two conditions where it is made. -/
def CallsMeet (env : Environment) : Mempool → List Call → Prop
  | _, [] => True
  | mp, call :: rest => call.Populated ∧ call.InsertsNoOrphan mp ∧
      CallsMeet env (after env mp call) rest

theorem foldl_consistent {env : Environment} {mp : Mempool}
    {calls : List Call} (sound : Consistent env.feeRate mp) (meet : CallsMeet env mp calls) :
    Consistent env.feeRate (calls.foldl (after env) mp) := by
  induction calls generalizing mp with
  | nil => exact sound
  | cons call rest ih =>
    rcases meet with ⟨filled, notOrphan, restMeet⟩
    exact ih (after_consistent sound filled notOrphan) restMeet

/--
After every run, whatever consensus and the other environment answer and
whichever calls fail, the indexes agree.
-/
theorem run_indexesAgree (env : Environment) (calls : List Call)
    (meet : CallsMeet env Mempool.new calls) : IndexesAgree (run env calls) :=
  indexesAgree_of_consistent (foldl_consistent (new_consistent env.feeRate) meet)

/-! ## A transaction in both pools -/

/-- Consensus misses an input in the first three answers, then finds it. -/
def lateEnvironment : Environment where
  config := ⟨1000, 100000, 50, 0, 100⟩
  feeRate fee mass := fee.toNat / mass.toNat
  isStandardInIsolation _ _ := true
  consensusAnswer question transaction :=
    if question < 3 then .missingOutpoints transaction.inputs else .valid
  contextError _ _ _ := none
  virtualDAAScore _ := some 0
  transactionExpireIntervalDAAScore _ := 0
  transactionExpireScanIntervalDAAScore _ := 0
  orphanExpireIntervalDAAScore _ := 0
  orphanExpireScanIntervalDAAScore _ := 0
  hasJustScanned _ := false
  rangeOrder _ ids := ids
  rangeOrder_perm _ ids := List.Perm.refl ids
  rounds := 10

def parentTransaction : Transaction where
  id := .filled 1
  inputs := [⟨.filled 9, 0⟩]
  outputs := 1
  fee := 10
  mass := 10
  inputs_lt := by decide
  outputs_lt := by decide

def childTransaction : Transaction where
  id := .filled 2
  inputs := [⟨.filled 1, 0⟩]
  outputs := 1
  fee := 10
  mass := 10
  inputs_lt := by decide
  outputs_lt := by decide

def submit (transaction : Transaction) : Call :=
  .validateAndInsertTransaction transaction false true false

/-- The child waits for its parent, and is promoted with it. -/
theorem run_indexesAgree_promotion : (chainedTo (run lateEnvironment [submit childTransaction,
        submit parentTransaction]).pool.chainedTransactionsByParentID
      (.filled 1)).map MempoolTransaction.transactionID = [.filled 2] ∧
    IndexesAgree (run lateEnvironment [submit childTransaction, submit parentTransaction]) := by
  refine ⟨by decide +kernel, run_indexesAgree _ _ ⟨?_, ?_, ?_, ?_, trivial⟩⟩
  · rintro tx ⟨⟩
    exact ⟨by decide, by decide⟩
  · rintro tx ⟨⟩
    decide +kernel
  · rintro tx ⟨⟩
    exact ⟨by decide, by decide⟩
  · rintro tx ⟨⟩
    decide +kernel

/-- An orphan that is inserted again when its input is found. -/
theorem indexesAgree_fails_insertedTwice : ¬ IndexesAgree (run lateEnvironment
      [submit childTransaction, submit childTransaction]) := by
  intro agree
  have inBoth : ¬ ((run lateEnvironment [submit childTransaction,
      submit childTransaction]).pool.allTransactions.lookup (.filled 2) = none ∨
      (run lateEnvironment [submit childTransaction,
      submit childTransaction]).orphans.allOrphans.lookup (.filled 2) = none) := by
    decide +kernel
  exact inBoth (agree.apart _)

end Htnd.MiningManager.Run
