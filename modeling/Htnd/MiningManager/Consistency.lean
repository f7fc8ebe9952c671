import Htnd.MiningManager.Removal

/-!
# The calls keep the mempool consistent

Questions change neither pool.  Bounding, expiring, revalidating and handling
double spends only remove.  A transaction is added when it is in neither pool
and its inputs are free, and an orphan that is promoted has left the orphan
pool before.
-/

namespace Htnd.MiningManager.Consistency

open Lib.Calls Lib.RangeLoops Utxo.Entry State Mempool PoolLists PoolIndex
open OrphanIndex Removal

variable {env : Environment}

/-! ## Questions -/

/-- The pools are those of another state. -/
structure SamePools (mp mp' : Mempool) : Prop where
  pool : mp'.pool = mp.pool
  orphans : mp'.orphans = mp.orphans

def OfPools (invariant : Mempool → Prop) : Prop :=
  ∀ mp mp', SamePools mp mp' → invariant mp → invariant mp'

theorem ofPools_samePools (mp : Mempool) : OfPools (SamePools mp) :=
  fun _ _ same same' => ⟨same.pool.trans same'.pool, same.orphans.trans same'.orphans⟩

/-- However the call ends, it leaves consistent pools. -/
abbrev Restores {α : Type} (env : Environment) (pre : Mempool → Prop) (call : MempoolM α) : Prop :=
  Ensures pre call (fun _ => Consistent env.feeRate) (Consistent env.feeRate)

variable {feeRate : FeeRate}

theorem ofPools_ok : OfPools (Consistent feeRate) := by
  rintro _ _ ⟨samePool, sameOrphans⟩ ⟨pool, orphans, apart⟩
  refine ⟨?_, ?_, ?_⟩
  · rw [samePool]
    exact pool
  · rw [sameOrphans]
    exact orphans
  · rw [samePool, sameOrphans]
    exact apart

theorem ofPools_shrunk {before : Mempool} : OfPools (Shrunk feeRate before) := by
  intro mp mp' same shrunk
  refine ⟨ofPools_ok mp mp' same shrunk.consistent, ?_, ?_⟩
  · rw [same.pool]
    exact shrunk.pool
  · rw [same.orphans]
    exact shrunk.orphans

/-- What follows a check may use that it was passed. -/
theorem failIf_bind {α : Type} {pre fail : Mempool → Prop} {post : α → Mempool → Prop} {test : Prop}
    [Decidable test] {error : MempoolError} {next : Unit → MempoolM α}
    (fails : ∀ mp, pre mp → fail mp) (rest : ¬ test → Ensures pre (next ()) post fail) :
    Ensures pre (failIf test error >>= next) post fail := by
  by_cases holds : test
  · rw [failIf, if_pos holds]
    exact fun mp isPre => fails mp isPre
  · exact .bind (failIf_ensures holds) fun _ => rest holds

section Questions

variable {inv fail : Mempool → Prop} (ofPools : OfPools inv)

include ofPools

theorem question_ensures : Ensures inv nextQuestion (fun _ => inv) fail := by
  refine .get fun mp holds => ?_
  refine .set (.pure ?_)
  rintro _ rfl
  exact ofPools mp _ ⟨rfl, rfl⟩ holds

theorem getDAAScore_keeps : Keeps inv (getVirtualDAAScore env) := by
  refine .bind (question_ensures ofPools) fun question => ?_
  cases env.virtualDAAScore question with
  | none => exact .throw fun _ => id
  | some score => exact .pure fun _ => id

theorem rangeKeys_keeps (keys : List DomainTransactionID) : Keeps inv (rangeKeys env keys) :=
  Ensures.bind (question_ensures ofPools) fun _ => .pure fun _ => id

variable (tx : Transaction)

theorem inContext_keeps (isLocal : Bool) : Keeps inv
      (validateTransactionInContext env tx isLocal) := by
  refine .bind (question_ensures ofPools) fun question => ?_
  cases env.contextError question tx isLocal with
  | none => exact .pure fun _ => id
  | some error => exact .throw fun _ => id

/-- Only a transaction without duplicate inputs is not rejected. -/
theorem validateTx_ensures : Ensures inv (validateTransactionAndPopulateWithConsensusData env tx)
      (fun answer mp => inv mp ∧ (tx.inputs.Nodup ∨ answer = .ruleError)) fail := by
  refine .bind (question_ensures ofPools) fun _ => ?_
  split_ifs with nodup
  · exact .pure fun _ kept => ⟨kept, .inl nodup⟩
  · exact .pure fun _ kept => ⟨kept, .inr rfl⟩

theorem validateOrphan_keeps : Keeps inv (validateOrphan env tx) := by
  refine .bind (validateTx_ensures ofPools tx) fun answer => ?_
  cases answer with
  | valid => exact .pure fun _ => And.left
  | missingOutpoints _ => exact .throw fun _ => And.left
  | immatureSpend | ruleError | failed => exact .throw fun _ => And.left

end Questions

/-- What is filled in are the parents in the pool. -/
theorem fillInputs_ensures (before : Mempool) (tx : Transaction) : Ensures (SamePools before)
    (fillInputsAndGetMissingParents env tx) (fun filled mp => SamePools before mp ∧
    filled.1 = before.pool.getParentTransactionsInPool tx ∧ tx.inputs.Nodup)
    (SamePools before) := by
  refine .get fun mp same => ?_
  refine .bind ((validateTx_ensures (ofPools_samePools before) tx).of_state same) fun answer => ?_
  rw [same.pool]
  cases answer with
  | valid =>
    exact .pure fun _ both => ⟨both.1, rfl, both.2.resolve_right ConsensusAnswer.noConfusion⟩
  | missingOutpoints _ =>
    exact .pure fun _ both => ⟨both.1, rfl, both.2.resolve_right ConsensusAnswer.noConfusion⟩
  | immatureSpend | ruleError | failed => exact .throw fun _ => And.left

/-! ## Calls that only remove -/

section Remove

variable {before : Mempool}

theorem removeTx_keeps (transactionID : DomainTransactionID) (redeeming : Bool) :
    Keeps (Shrunk env.feeRate before) (removeTransaction env transactionID redeeming) :=
  (removeTransaction_shrinks transactionID redeeming).post_imp fun _ _ => And.left

theorem removeOrphan_keeps {feeRate : FeeRate} (orphanID : DomainTransactionID) (redeeming : Bool) :
    Keeps (Shrunk feeRate before) (removeOrphan orphanID redeeming) :=
  ((removeOrphan_shrinks orphanID redeeming).post_imp fun _ _ => And.left).of_never

theorem limitCount_keeps (rounds currentIndex : Nat) :
    Keeps (Shrunk env.feeRate before) (limitCount env rounds currentIndex) := by
  induction rounds generalizing currentIndex with
  | zero => exact .throw fun _ => id
  | succ rounds ih =>
    refine .get fun mp shrunk => ?_
    have kept : Ensures (fun state => state = mp)
        (pure () : MempoolM Unit) (fun _ => Shrunk env.feeRate before)
        (Shrunk env.feeRate before) := Ensures.pure fun _ isState => isState ▸ shrunk
    split
    · exact kept
    split
    · exact kept
    refine .bind ((removeTx_keeps _ true).of_state shrunk) fun _ => ?_
    refine .get fun _ shrunk' => ?_
    split
    · exact .pure fun _ isState => isState ▸ shrunk'
    · exact (ih _).of_state shrunk'

theorem randomEvictableOrphan_keeps :
    Keeps (Shrunk env.feeRate before) (randomEvictableOrphan env) := by
  refine .get fun _ shrunk => ?_
  exact .bind ((rangeKeys_keeps ofPools_shrunk _).of_state shrunk) fun _ => .pure fun _ => id

theorem limitOrphans_keeps (rounds : Nat) :
    Keeps (Shrunk env.feeRate before) (limitOrphans env rounds) := by
  induction rounds with
  | zero => exact .throw fun _ => id
  | succ rounds ih =>
    refine .get fun _ shrunk => ?_
    split
    · exact .pure fun _ isState => isState ▸ shrunk
    refine .bind (randomEvictableOrphan_keeps.of_state shrunk) fun evictable => ?_
    cases evictable with
    | none => exact .pure fun _ => id
    | some orphan => exact .bind (removeOrphan_keeps _ false) fun _ => ih

theorem removeDoubleSpends_keeps (inputs : List DomainOutpoint) :
    Keeps (Shrunk env.feeRate before) (removeDoubleSpends env inputs) := by
  induction inputs with
  | nil => exact .pure fun _ => id
  | cons previousOutpoint rest ih =>
    refine .bind ?_ fun _ => ih
    refine .get fun _ shrunk => ?_
    split
    · exact (removeTx_keeps _ true).of_state shrunk
    · exact .pure fun _ isState => isState ▸ shrunk

theorem expireOrphans_keeps (score : UInt64) (ids : List DomainTransactionID) :
    Keeps (Shrunk env.feeRate before) (expireOrphans env score ids) := by
  induction ids with
  | nil => exact .pure fun _ => id
  | cons orphanID rest ih =>
    refine .bind ?_ fun _ => ih
    refine .get fun _ shrunk => ?_
    split
    · exact .pure fun _ isState => isState ▸ shrunk
    refine .bind ((question_ensures ofPools_shrunk).of_state shrunk) fun _ => ?_
    split
    · exact removeOrphan_keeps _ false
    · exact .pure fun _ => id

theorem expireTransactions_keeps (score : UInt64) (ids : List DomainTransactionID) :
    Keeps (Shrunk env.feeRate before) (expireTransactions env score ids) := by
  induction ids with
  | nil => exact .pure fun _ => id
  | cons transactionID rest ih =>
    refine .bind ?_ fun _ => ih
    refine .get fun _ shrunk => ?_
    split
    · exact .pure fun _ isState => isState ▸ shrunk
    refine .bind ((question_ensures ofPools_shrunk).of_state shrunk) fun _ => ?_
    split
    · exact removeTx_keeps _ true
    · exact .pure fun _ => id

theorem expireOrphanTxs_keeps :
    Keeps (Shrunk env.feeRate before) (expireOrphanTransactions env) := by
  refine .bind (getDAAScore_keeps ofPools_shrunk) fun score => ?_
  refine .bind (question_ensures ofPools_shrunk) fun _ => ?_
  refine .get fun mp shrunk => ?_
  split
  · exact .pure fun _ isState => isState ▸ shrunk
  refine .bind ((rangeKeys_keeps ofPools_shrunk _).of_state shrunk) fun keys => ?_
  refine .bind (expireOrphans_keeps score keys) fun _ => ?_
  refine .of_modify fun mp shrunk => ?_
  exact ⟨⟨shrunk.consistent.pool, { shrunk.consistent.orphans with },
    shrunk.consistent.apart⟩, shrunk.pool, shrunk.orphans⟩

theorem expireOld_keeps : Keeps (Shrunk env.feeRate before) (expireOldTransactions env) := by
  refine .bind (getDAAScore_keeps ofPools_shrunk) fun score => ?_
  refine .bind (question_ensures ofPools_shrunk) fun _ => ?_
  refine .get fun mp shrunk => ?_
  split
  · exact .pure fun _ isState => isState ▸ shrunk
  refine .bind ((rangeKeys_keeps ofPools_shrunk _).of_state shrunk) fun keys => ?_
  refine .bind (expireTransactions_keeps score keys) fun _ => ?_
  refine .of_modify fun mp shrunk => ?_
  exact ⟨⟨{ shrunk.consistent.pool with }, shrunk.consistent.orphans,
    shrunk.consistent.apart⟩, shrunk.pool, shrunk.orphans⟩

theorem fillInputs_keeps {inv : Mempool → Prop} (ofPools : OfPools inv) (tx : Transaction) :
    Keeps inv (fillInputsAndGetMissingParents env tx) := by
  refine .by_state fun mp holds => ?_
  refine (fillInputs_ensures mp tx).imp ?_ ?_ ?_
  · rintro _ rfl
    exact ⟨rfl, rfl⟩
  · exact fun _ mp' filled => ofPools mp mp' filled.1 holds
  · exact fun mp' same => ofPools mp mp' same holds

theorem revalidateTransaction_keeps (tx : MempoolTransaction) :
    Keeps (Shrunk env.feeRate before) (revalidateTransaction env tx) := by
  have asks : Keeps (Shrunk env.feeRate before) (isNoLongerValid env tx.transaction) := by
    refine .tryCatch (.bind (fillInputs_keeps ofPools_shrunk _)
      fun _ => .pure fun _ => id) fun _ => ?_
    split
    · exact .pure fun _ => id
    · exact .throw fun _ => id
  refine .bind asks fun _ => ?_
  split
  · exact .bind (removeTx_keeps _ false) fun _ => .pure fun _ => id
  · exact .pure fun _ => id

theorem revalidateQueue_keeps (rounds : Nat) (txDAG : TxDAG) (queue : List DomainTransactionID) :
    Keeps (Shrunk env.feeRate before) (revalidateQueue env rounds txDAG queue) := by
  fun_induction revalidateQueue env rounds txDAG queue with
  | case1 => exact .pure fun _ => id
  | case2 => exact .throw fun _ => id
  | case3 _ _ _ _ _ ih | case4 _ _ _ _ _ _ _ ih => exact ih
  | case5 rounds txDAG id queue node isNode notVisited seen ih =>
    refine .bind (revalidateTransaction_keeps _) fun _ => ?_
    refine .bind (rangeKeys_keeps ofPools_shrunk _) fun _ => ?_
    exact .bind (ih _ _) fun _ => .pure fun _ holds => holds

theorem revalidateHighPriorityTransactions_keeps : Keeps (Shrunk env.feeRate before)
    (revalidateHighPriorityTransactions env) := by
  refine .get fun _ shrunk => ?_
  exact .bind ((rangeKeys_keeps ofPools_shrunk _).of_state shrunk)
    fun _ => revalidateQueue_keeps _ _ _

end Remove

/-- What only removes keeps the mempool consistent. -/
theorem keeps_of_shrinks {α : Type} {call : MempoolM α}
    (shrinks : ∀ before, Keeps (Shrunk env.feeRate before) call) :
    Keeps (Consistent env.feeRate) call := by
  refine .by_state fun mp sound => ?_
  exact ((shrinks mp).of_state (Shrunk.refl sound)).imp (fun _ => id)
    (fun _ _ shrunk => shrunk.consistent) fun _ shrunk => shrunk.consistent

/-! ## Adding -/

/-- The transaction is in neither pool. -/
structure IsNew (feeRate : FeeRate) (transaction : Transaction) (mp : Mempool) : Prop where
  consistent : Consistent feeRate mp
  notInPool : mp.pool.allTransactions.lookup transaction.id = none
  notOrphan : mp.orphans.allOrphans.lookup transaction.id = none

/-- It can be added to the pool. -/
structure Addable (feeRate : FeeRate) (transaction : Transaction) (mp : Mempool) : Prop
    extends IsNew feeRate transaction mp where
  free : ∀ outpoint ∈ transaction.inputs,
    mp.pool.transactionByPreviousOutpoint.lookup outpoint = none
  populated : Populated transaction

theorem ofPools_isNew {tx : Transaction} : OfPools (IsNew feeRate tx) := by
  intro mp mp' same isNew
  refine ⟨ofPools_ok mp mp' same isNew.consistent, ?_, ?_⟩
  · rw [same.pool]
    exact isNew.notInPool
  · rw [same.orphans]
    exact isNew.notOrphan

theorem ofPools_addable {tx : Transaction} : OfPools (Addable feeRate tx) := by
  intro mp mp' same addable
  exact ⟨ofPools_isNew mp mp' same addable.toIsNew, same.pool ▸ addable.free, addable.populated⟩

theorem doubleSpend_eq_none {tp : TransactionsPool} {tx : Transaction}
    (notSpent : ¬ (tp.doubleSpend tx).isSome = true) : ∀ point ∈ tx.inputs,
    tp.transactionByPreviousOutpoint.lookup point = none := by
  rw [Option.not_isSome_iff_eq_none] at notSpent
  exact List.findSome?_eq_none_iff.mp notSpent

variable (orphan : OrphanTransaction) (tx : Transaction) (parents : IDToTransactionMap)

theorem addTransaction_ensures (isHigh : Bool) : Restores env (fun mp => Addable env.feeRate tx mp ∧
      parents = mp.pool.getParentTransactionsInPool tx) (addTransaction env tx parents isHigh) := by
  have ofPools : OfPools fun mp => Addable env.feeRate tx mp ∧
      parents = mp.pool.getParentTransactionsInPool tx := by
    rintro mp mp' same ⟨addable, isParents⟩
    exact ⟨ofPools_addable mp mp' same addable, same.pool ▸ isParents⟩
  have asks := (@getDAAScore_keeps env _ ofPools).fail_imp fun _ both => both.1.consistent
  refine .bind asks fun score => ?_
  refine .get fun mp both => ?_
  have addable := both.1
  rcases addMempoolTx_indexed isHigh score addable.consistent.pool addable.notInPool addable.free
    addable.populated with ⟨_, isAdded, index, isAll⟩
  rw [← both.2] at isAdded
  have isCreated : (mp.pool.newMempoolTransaction tx parents isHigh score).1 =
        ⟨mp.pool.nextAddress, tx, isHigh, score⟩ := rfl
  dsimp only
  rw [isCreated, isAdded]
  refine .set ((failIf_ensures Bool.noConfusion).post_imp ?_)
  rintro - _ rfl
  refine ⟨index, addable.consistent.orphans, ?_⟩
  intro id
  rw [isAll, insert_ite]
  split_ifs with isID
  · rw [isID]
    exact .inr addable.notOrphan
  · exact addable.consistent.apart id

/-- The orphan has left its pool before it is added to the other. -/
theorem unorphanTransaction_ensures : Restores env (fun mp => Consistent env.feeRate mp ∧
      HoldsOrphan mp.orphans orphan) (unorphanTransaction env orphan) := by
  refine .by_state fun mp both => ?_
  have sound := both.1
  have filled := sound.orphans.populated orphan both.2
  have notInPool : mp.pool.allTransactions.lookup orphan.transaction.id =
      none := by
    refine (sound.apart _).resolve_right fun notOrphan => ?_
    have held : mp.orphans.allOrphans.lookup orphan.transaction.id = some orphan := both.2
    rw [notOrphan] at held
    cases held
  have removes := @removeOrphan_shrinks env.feeRate mp orphan.transactionID false
  refine .bind (removes.of_state (Shrunk.refl sound)).of_never fun _ => ?_
  refine .get fun mp₁ gone => ?_
  refine failIf_bind (fun _ isState => isState ▸ gone.1.consistent) fun notSpent => ?_
  have addable : Addable env.feeRate orphan.transaction mp₁ :=
    ⟨⟨gone.1.consistent, gone.1.pool.lookup_none notInPool, gone.2⟩, doubleSpend_eq_none notSpent,
    filled⟩
  have toConsistent : ∀ mp, Addable env.feeRate orphan.transaction mp →
      Consistent env.feeRate mp := fun _ addable => addable.consistent
  refine .bind (((validateOrphan_keeps ofPools_addable
    orphan.transaction).of_state addable).fail_imp toConsistent) fun _ => ?_
  refine .bind ((inContext_keeps ofPools_addable
    orphan.transaction orphan.isLocalSubmission).fail_imp toConsistent) fun _ => ?_
  refine .get fun _ addable => ?_
  exact (addTransaction_ensures _ _ _).of_state ⟨addable, rfl⟩

theorem unorphanIfComplete_ensures : Restores env (fun mp => Consistent env.feeRate mp ∧
      HoldsOrphan mp.orphans orphan) (unorphanIfComplete env orphan) := by
  have ofPools : OfPools fun mp => Consistent env.feeRate mp ∧ HoldsOrphan mp.orphans orphan := by
    rintro mp mp' same ⟨sound, held⟩
    exact ⟨ofPools_ok mp mp' same sound, same.orphans ▸ held⟩
  refine .bind ((fillInputs_keeps ofPools _).fail_imp fun _ => And.left) fun _ => ?_
  split
  · exact .pure fun _ => And.left
  · exact .bind (unorphanTransaction_ensures orphan) fun _ => .pure fun _ => id

theorem tryToUnorphan_ensures : Restores env (fun mp => Consistent env.feeRate mp ∧
      HoldsOrphan mp.orphans orphan) (tryToUnorphan env orphan) := by
  refine .tryCatch (unorphanIfComplete_ensures orphan) fun _ => ?_
  split
  · exact .pure fun _ => id
  · exact .throw fun _ => id

theorem promoteRedeemers_keeps (outpoints : List DomainOutpoint) :
    Keeps (Consistent env.feeRate) (promoteRedeemers env outpoints) := by
  induction outpoints with
  | nil => exact .pure fun _ => id
  | cons point rest ih =>
    refine .get fun mp sound => ?_
    cases found : mp.orphans.orphansByPreviousOutpoint.lookup point with
    | none => exact ih.of_state sound
    | some orphan =>
      have held := ((sound.orphans.spends point orphan).mp found).1
      refine .bind ((tryToUnorphan_ensures orphan).of_state ⟨sound, held⟩) fun _ => ?_
      exact .bind ih fun _ => .pure fun _ => id

theorem processOrphans_keeps (rounds : Nat) (queue : List Transaction) :
    Keeps (Consistent env.feeRate) (processOrphans env rounds queue) := by
  fun_induction processOrphans env rounds queue with
  | case1 => exact .pure fun _ => id
  | case2 => exact .throw fun _ => id
  | case3 rounds here queue ih =>
    refine .bind (promoteRedeemers_keeps _) fun _ => ?_
    exact .bind (ih _) fun _ => .pure fun _ => id

theorem acceptTransaction_ensures (isHigh : Bool) : Restores env
      (fun mp => Addable env.feeRate tx mp ∧ parents = mp.pool.getParentTransactionsInPool tx)
      (acceptTransaction env tx parents isHigh) := by
  refine .bind (addTransaction_ensures tx parents isHigh) fun _ => ?_
  refine .bind (processOrphans_keeps _ _) fun _ => ?_
  exact .bind (keeps_of_shrinks fun _ => limitCount_keeps _ _) fun _ => .pure fun _ => id

end Htnd.MiningManager.Consistency
