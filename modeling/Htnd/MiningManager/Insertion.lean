import Htnd.MiningManager.Consistency

/-!
# Insertion and new blocks

A transaction that is not an orphan when it is inserted ends up in one of the
pools at most.  A replacement evicts every transaction that spends one of its
inputs before it is added.
-/

namespace Htnd.MiningManager.Insertion

open Lib.Calls Lib.RangeLoops Utxo.Entry State Mempool PoolLists
open OrphanIndex Removal Consistency

variable {env : Environment}

variable {tx : Transaction}

/-! ## Orphans -/

variable {mp : Mempool}

section Insert

variable {tx : Transaction} (populated : Populated tx)

include populated

theorem addOrphan_consistent (isNew : IsNew env.feeRate tx mp)
    (nodup : tx.inputs.Nodup)
    (notSpent : ¬ (mp.orphans.orphanDoubleSpend tx).isSome = true)
    (isHigh isLocal : Bool) (score : UInt64) :
    Consistent env.feeRate { mp with
      orphans := mp.orphans.addOrphan ⟨tx, isHigh, isLocal, score⟩ } := by
  rw [Option.not_isSome_iff_eq_none] at notSpent
  refine ⟨isNew.consistent.pool, ?_, ?_⟩
  · exact addOrphan_indexed isNew.consistent.orphans isNew.notOrphan
      (List.findSome?_eq_none_iff.mp notSpent) populated nodup
  · intro id
    change _ ∨ (mp.orphans.allOrphans.insert tx.id _).lookup id = none
    rw [insert_ite]
    split_ifs with isID
    · rw [isID]
      exact .inl isNew.notInPool
    · exact isNew.consistent.apart id

theorem maybeAddOrphan_ensures (nodup : tx.inputs.Nodup) (isHigh isLocal : Bool) :
    Restores env (IsNew env.feeRate tx) (maybeAddOrphan env tx isHigh isLocal) := by
  rw [maybeAddOrphan]
  split
  · exact .pure fun _ isNew => isNew.consistent
  refine .get fun mp isNew => ?_
  have fails : ∀ state, state = mp → Consistent env.feeRate state :=
    fun _ isState => isState ▸ isNew.consistent
  refine failIf_bind fails fun _ => failIf_bind fails fun _ => failIf_bind fails fun notSpent => ?_
  have ofPools : OfPools fun mp => IsNew env.feeRate tx mp ∧
      ¬ (mp.orphans.orphanDoubleSpend tx).isSome = true := by
    rintro mp mp' same ⟨isNew, notSpent⟩
    exact ⟨ofPools_isNew mp mp' same isNew, same.orphans ▸ notSpent⟩
  have asks := (@getDAAScore_keeps env _ ofPools).of_state ⟨isNew, notSpent⟩
  refine .bind (asks.fail_imp fun _ both => both.1.consistent) fun score => ?_
  have adds : Restores env (fun mp => IsNew env.feeRate tx mp ∧
        ¬ (mp.orphans.orphanDoubleSpend tx).isSome = true)
      (modify fun mp => { mp with
          orphans := mp.orphans.addOrphan ⟨tx, isHigh, isLocal, score⟩ } :
        MempoolM PUnit) :=
    Ensures.of_modify fun mp both => addOrphan_consistent populated both.1
      nodup both.2 isHigh isLocal score
  exact .bind adds fun _ => keeps_of_shrinks fun _ => limitOrphans_keeps _

theorem insertOrphan_ensures (nodup : tx.inputs.Nodup) (isHigh allowOrphan isLocal : Bool) :
    Restores env (IsNew env.feeRate tx) (insertOrphan env tx isHigh allowOrphan isLocal) := by
  have fails : ∀ mp, IsNew env.feeRate tx mp →
    Consistent env.feeRate mp := fun _ isNew => isNew.consistent
  refine failIf_bind fails fun _ => failIf_bind fails fun _ => ?_
  exact .bind (maybeAddOrphan_ensures populated nodup isHigh isLocal) fun _ => .pure fun _ => id

/-! ## Inserting -/

omit populated in
theorem inIsolation_ensures : Ensures (fun mp => Consistent env.feeRate mp ∧
        mp.orphans.allOrphans.lookup tx.id = none) (validateTransactionInIsolation env tx)
      (fun _ => IsNew env.feeRate tx) (Consistent env.feeRate) := by
  refine .get fun mp both => ?_
  refine failIf_bind (fun _ isState => isState ▸ both.1) fun notInPool => ?_
  rw [Option.not_isSome_iff_eq_none] at notInPool
  have isNew : IsNew env.feeRate tx mp := ⟨both.1, notInPool, both.2⟩
  refine .bind ((question_ensures ofPools_isNew).of_state isNew) fun _ => ?_
  rw [failIf]
  split
  · exact .throw fun _ isNew => isNew.consistent
  · exact .pure fun _ => id

/-- The transaction is inserted or waits as an orphan. -/
theorem insertValid_ensures (isHigh allowOrphan isLocal : Bool) : Restores env
      (fun mp => Consistent env.feeRate mp ∧ mp.orphans.allOrphans.lookup tx.id = none)
      (validateAndInsertTransaction env tx isHigh allowOrphan isLocal) := by
  refine .bind inIsolation_ensures fun _ => ?_
  refine .get fun mp isNew => ?_
  refine failIf_bind (fun _ isState => isState ▸ isNew.consistent) fun notSpent => ?_
  have addable : Addable env.feeRate tx mp := ⟨isNew, doubleSpend_eq_none notSpent, populated⟩
  refine .bind (((fillInputs_ensures mp tx).of_state ⟨rfl, rfl⟩).fail_imp fun mp' same => ofPools_ok
    mp mp' same isNew.consistent) fun filled => ?_
  split
  · refine .by_state fun mp' isFilled => ?_
    exact (insertOrphan_ensures populated isFilled.2.2 _ allowOrphan
      isLocal).of_state (ofPools_isNew mp mp' isFilled.1 isNew)
  refine .by_state fun mp' isFilled => ?_
  have ofPools : OfPools fun mp => Addable env.feeRate tx mp ∧
      filled.1 = mp.pool.getParentTransactionsInPool tx := by
    rintro mp mp' same ⟨addable, isParents⟩
    exact ⟨ofPools_addable mp mp' same addable, same.pool ▸ isParents⟩
  have asks := (@inContext_keeps env _ ofPools
    tx isLocal).of_state (ofPools mp mp' isFilled.1 ⟨addable, isFilled.2.1⟩)
  refine .bind (asks.fail_imp fun _ both => both.1.consistent) fun _ => ?_
  exact acceptTransaction_ensures tx filled.1 _

end Insert

/-! ## Replacing -/

/-- Whoever spends an input is among the conflicts. -/
theorem exists_conflict {tp : TransactionsPool} {point : DomainOutpoint}
    (isInput : point ∈ tx.inputs) {spender : MempoolTransaction}
    (spends : tp.transactionByPreviousOutpoint.lookup point = some spender) :
    ∃ clash ∈ mempoolConflicts tp tx, clash.transactionID = spender.transactionID := by
  have isKey : spender.transactionID ∈ collect tp.transactionByPreviousOutpoint.lookup
      MempoolTransaction.transactionID tx.inputs ∅ := mem_collect isInput spends
  rw [← AList.lookup_isSome, Option.isSome_iff_exists] at isKey
  rcases isKey with ⟨clash, found⟩
  refine ⟨clash, ?_, ?_⟩
  · rw [mempoolConflicts, List.mem_insertionSort, List.mem_map]
    exact ⟨⟨_, clash⟩, (mem_entries _ ⟨_, clash⟩).mpr found, rfl⟩
  · rcases found_of_lookup_collect found with absent | ⟨_, -, -, isID⟩
    · cases absent
    · exact isID

variable {before : Mempool}

theorem removeConflicts_ensures (conflicts : List MempoolTransaction) :
    Ensures (Shrunk env.feeRate before) (removeConflicts env conflicts)
    (fun _ mp => Shrunk env.feeRate before mp ∧ ∀ clash ∈ conflicts,
    mp.pool.allTransactions.lookup clash.transactionID = none) (Shrunk env.feeRate before) := by
  induction conflicts generalizing before with
  | nil => exact .pure fun _ shrunk => ⟨shrunk, nofun⟩
  | cons clash rest ih =>
    refine .bind (removeTransaction_shrinks _ true) fun _ => ?_
    refine .by_state fun mp removed => ?_
    refine (ih.of_state (Shrunk.refl removed.1.consistent)).imp
      (fun _ => id) ?_ fun _ shrunk => removed.1.trans shrunk
    rintro - _ ⟨shrunk, gone⟩
    refine ⟨removed.1.trans shrunk, ?_⟩
    rw [List.forall_mem_cons]
    exact ⟨shrunk.pool.lookup_none removed.2, gone⟩

theorem checkReplacement_keeps {inv : Mempool → Prop}
    (tx : Transaction) (gone : IDToTransactionMap) : Keeps inv (checkReplacement env tx gone) := by
  have fails : ∀ mp, inv mp → inv mp := fun _ => id
  refine failIf_bind fails fun _ => failIf_bind fails fun _ => failIf_bind fails fun _ => ?_
  rw [failIf]
  split
  · exact .throw fun _ => id
  · exact .pure fun _ => id

section Replace

variable {tx : Transaction} (populated : Populated tx)

include populated

/-- When the conflicts are gone the inputs are free. -/
theorem addable_of_removed (isNew : IsNew env.feeRate tx before)
    (shrunk : Shrunk env.feeRate before mp) (gone : ∀ clash ∈ mempoolConflicts before.pool tx,
    mp.pool.allTransactions.lookup clash.transactionID = none) : Addable env.feeRate tx mp := by
  refine ⟨⟨shrunk.consistent, shrunk.pool.lookup_none isNew.notInPool,
    shrunk.orphans.lookup_none isNew.notOrphan⟩, ?_, populated⟩
  intro point isInput
  cases found : mp.pool.transactionByPreviousOutpoint.lookup point with
  | none => rfl
  | some spender =>
    rcases (shrunk.consistent.pool.spends point spender).mp found with ⟨holds, spends⟩
    have spentBefore := (isNew.consistent.pool.spends point spender).mpr
      ⟨shrunk.pool _ _ holds, spends⟩
    rcases exists_conflict isInput spentBefore with ⟨clash, mem, sameID⟩
    have isGone := gone clash mem
    rw [sameID, show mp.pool.allTransactions.lookup _ = _ from holds] at isGone
    cases isGone

theorem replaceConflicts_ensures (isNew : IsNew env.feeRate tx before)
    (isHigh : Bool) : Restores env (SamePools before)
    (replaceConflicts env tx isHigh (mempoolConflicts before.pool tx)) := by
  refine .get fun mp same => ?_
  have shrunk : Shrunk env.feeRate before mp :=
    ofPools_shrunk before mp same (Shrunk.refl isNew.consistent)
  have fails : ∀ mp, Shrunk env.feeRate before mp →
    Consistent env.feeRate mp := fun _ shrunk => shrunk.consistent
  split
  · exact .throw fun _ isState => isState ▸ shrunk.consistent
  refine .bind (((checkReplacement_keeps _ _).of_state shrunk).fail_imp fails) fun _ => ?_
  refine .bind ((removeConflicts_ensures _).fail_imp fails) fun _ => ?_
  refine .get fun _ gone => ?_
  exact (acceptTransaction_ensures tx _ isHigh).of_state
    ⟨addable_of_removed populated isNew gone.1 gone.2, rfl⟩

theorem insertReplacement_ensures (isHigh : Bool) :
    Restores env (fun mp => Consistent env.feeRate mp ∧ mp.orphans.allOrphans.lookup tx.id = none)
    (validateAndInsertTransactionReplacement env tx isHigh) := by
  refine .bind inIsolation_ensures fun _ => ?_
  refine .get fun mp isNew => ?_
  dsimp only
  split
  · exact (insertValid_ensures populated _ _ _).of_state ⟨isNew.consistent, isNew.notOrphan⟩
  have fails : ∀ mp', SamePools mp mp' → Consistent env.feeRate mp' :=
    fun mp' same => ofPools_ok mp mp' same isNew.consistent
  refine .bind (((fillInputs_ensures mp tx).of_state ⟨rfl, rfl⟩).fail_imp fails) fun _ => ?_
  refine failIf_bind (fun mp' isFilled => fails mp' isFilled.1) fun _ => ?_
  refine .by_state fun mp' isFilled => ?_
  have asks := (@inContext_keeps env _ (ofPools_samePools mp) tx true).of_state isFilled.1
  exact .bind (asks.fail_imp fails) fun _ => replaceConflicts_ensures populated isNew _

end Replace

/-! ## New blocks -/

theorem handleBlockTransactions_keeps (txs : List Transaction) :
    Keeps (Consistent env.feeRate) (handleBlockTransactions env txs) := by
  induction txs with
  | nil => exact .pure fun _ => id
  | cons tx rest ih =>
    refine .bind (keeps_of_shrinks fun before => removeTx_keeps _ false) fun _ => ?_
    refine .bind (keeps_of_shrinks fun before => removeDoubleSpends_keeps _) fun _ => ?_
    refine .bind (keeps_of_shrinks fun before => removeOrphan_keeps _ false) fun _ => ?_
    refine .bind (processOrphans_keeps _ _) fun _ => ?_
    exact .bind ih fun _ => .pure fun _ => id

theorem handleNewBlockTransactions_keeps (blockTransactions : List Transaction) :
    Keeps (Consistent env.feeRate) (handleNewBlockTransactions env blockTransactions) := by
  cases blockTransactions with
  | nil => exact .throw fun _ => id
  | cons coinbase txs =>
    refine .bind (handleBlockTransactions_keeps txs) fun _ => ?_
    refine .bind (keeps_of_shrinks fun before => expireOrphanTxs_keeps) fun _ => ?_
    exact .bind (keeps_of_shrinks fun before => expireOld_keeps) fun _ => .pure fun _ => id

end Htnd.MiningManager.Insertion
