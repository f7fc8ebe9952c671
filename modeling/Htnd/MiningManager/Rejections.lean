import Htnd.MiningManager.Run

/-!
# Rejected transactions

An insertion first checks, then changes the pools.  The checks read the pools
and what is answered, up to the DAA score that a new transaction is given, and
change neither pool.  So an insertion whose checks fail leaves everything as it
was.  One that fails later may leave a transaction half inserted, or its
conflicts evicted.
-/

namespace Htnd.MiningManager.Rejections

open Lib.Calls Utxo.Entry State Mempool Consistency Run

/-! ## Checks and changes -/

section Checks

variable (env : Environment) (transaction : Transaction)

/-- What follows in `acceptTransaction` when the DAA score is known. -/
def acceptAt (parentsInPool : IDToTransactionMap) (isHighPriority : Bool)
    (score : UInt64) : MempoolM (List Transaction) := do
  let mp ← get
  let created := mp.pool.newMempoolTransaction transaction parentsInPool isHighPriority score
  let added := created.2.addMempoolTransaction env.feeRate created.1
  set { mp with pool := added.2 }
  failIf (added.1 = false) .feeOrMassNotPopulated
  let acceptedOrphans ← processOrphansAfterAcceptedTransaction env transaction
  limitTransactionCount env
  return transaction :: acceptedOrphans

/-- The checks of an orphan; what is returned adds it. -/
def orphanChecks (isHighPriority allowOrphan isLocalSubmission : Bool) :
    MempoolM (MempoolM (List Transaction)) := do
  failIf (env.config.inputMinAgeDAAScore > 0) (.transactionRuleError .rejectImmatureSpend)
  failIf (¬ allowOrphan) (.transactionRuleError .rejectBadOrphan)
  if env.config.maximumOrphanTransactionCount = 0 then return (return [])
  else
    let mp ← get
    failIf (mp.orphans.allOrphans.lookup transaction.id).isSome
      (.transactionRuleError .rejectDuplicate)
    failIf (transaction.mass > env.config.maximumOrphanTransactionMass)
      (.transactionRuleError .rejectBadOrphan)
    failIf (mp.orphans.orphanDoubleSpend transaction).isSome
      (.transactionRuleError .rejectDuplicate)
    let score ← getVirtualDAAScore env
    return do
      modify fun mp => { mp with
        orphans := mp.orphans.addOrphan ⟨transaction, isHighPriority, isLocalSubmission, score⟩ }
      limitOrphans env env.rounds
      return []

/-- The checks of an insertion; what is returned makes the change. -/
def insertionChecks (isHighPriority allowOrphan isLocalSubmission : Bool) :
    MempoolM (MempoolM (List Transaction)) := do
  let isHighPriority := raisePriorityIfCompound env transaction isHighPriority
  validateTransactionInIsolation env transaction
  failIf ((← get).pool.doubleSpend transaction).isSome (.transactionRuleError .rejectDuplicate)
  let filled ← fillInputsAndGetMissingParents env transaction
  if filled.2 ≠ [] then
    orphanChecks env transaction isHighPriority allowOrphan isLocalSubmission
  else
    validateTransactionInContext env transaction isLocalSubmission
    let score ← getVirtualDAAScore env
    return acceptAt env transaction filled.1 isHighPriority score

/-- The checks of a replacement, which end before a conflict is evicted. -/
def replacementChecks (isHighPriority : Bool) : MempoolM (MempoolM (List Transaction)) := do
  let isHighPriority := raisePriorityIfCompound env transaction isHighPriority
  validateTransactionInIsolation env transaction
  let conflicts := mempoolConflicts (← get).pool transaction
  if conflicts = [] then
    insertionChecks env transaction isHighPriority false true
  else
    let filled ← fillInputsAndGetMissingParents env transaction
    failIf (filled.2 ≠ []) (.transactionRuleError .rejectBadOrphan)
    validateTransactionInContext env transaction true
    match replacementRemovalSet env (← get).pool conflicts with
    | none => throw .unfinished
    | some removed =>
      checkReplacement env transaction removed
      return do
        removeConflicts env conflicts
        acceptTransaction env transaction ((← get).pool.getParentTransactionsInPool transaction)
          isHighPriority

end Checks

/-- The checks of a call; what is returned is the rest of the call. -/
def checksOf (env : Environment) : Call → MempoolM (MempoolM Unit)
  | .validateAndInsertTransaction transaction isHighPriority allowOrphan isLocalSubmission => do
    let change ← insertionChecks env transaction isHighPriority allowOrphan isLocalSubmission
    return do let _ ← change
  | .validateAndInsertTransactionReplacement transaction isHighPriority => do
    let change ← replacementChecks env transaction isHighPriority
    return do let _ ← change
  | call => return call.perform env

section Split

variable {env : Environment} (tx : Transaction) (isHigh allowOrphan isLocal : Bool)

theorem insertOrphan_eq : insertOrphan env tx isHigh allowOrphan isLocal =
      orphanChecks env tx isHigh allowOrphan isLocal >>= id := by
  simp only [insertOrphan, maybeAddOrphan, orphanChecks, bind_assoc]
  split_ifs
  · simp
  · simp

theorem acceptTransaction_eq (parents : IDToTransactionMap) :
    acceptTransaction env tx parents isHigh = getVirtualDAAScore env >>= acceptAt env tx parents
    isHigh := by
  simp only [acceptTransaction, addTransaction, bind_assoc]
  rfl

theorem insertion_eq : validateAndInsertTransaction env tx isHigh allowOrphan isLocal =
    insertionChecks env tx isHigh allowOrphan isLocal >>= id := by
  simp only [validateAndInsertTransaction, insertionChecks, bind_assoc]
  congr! 8 with _ _ filled
  split_ifs
  · exact insertOrphan_eq _ _ _ _
  · simp [acceptTransaction_eq]

theorem replacement_eq : validateAndInsertTransactionReplacement env tx isHigh =
    replacementChecks env tx isHigh >>= id := by
  simp only [validateAndInsertTransactionReplacement, replacementChecks, bind_assoc]
  congr! 5 with _ mp
  split_ifs
  · exact insertion_eq _ _ _ _
  simp only [bind_assoc, replaceConflicts]
  congr! 8 with _ now
  cases replacementRemovalSet env now.pool (mempoolConflicts mp.pool tx) with
  | none => rfl
  | some removed => simp

/-- A call is its checks, followed by what they return. -/
theorem perform_eq (call : Call) : call.perform env = checksOf env call >>= id := by
  cases call with
  | validateAndInsertTransaction tx => simp [Call.perform, checksOf, insertion_eq]
  | validateAndInsertTransactionReplacement tx => simp [Call.perform, checksOf, replacement_eq]
  | handleNewBlockTransactions | removeTransaction
  | expireOrphanTransactions | expireOldTransactions
  | revalidateHighPriorityTransactions => simp [checksOf]

end Split

/-! ## The checks change nothing -/

section Keep

variable {env : Environment} {before : Mempool} (tx : Transaction)
  (isHigh allowOrphan isLocal : Bool)

theorem failIf_keeps {inv : Mempool → Prop} {test : Prop} [Decidable test] {error : MempoolError} :
    Keeps inv (failIf test error) := by
  rw [failIf]
  split
  · exact .throw fun _ => id
  · exact .pure fun _ => id

theorem isolation_keeps : Keeps (SamePools before) (validateTransactionInIsolation env tx) :=
  Ensures.bind (fun _ same => same) fun _ => Ensures.bind failIf_keeps fun _ => Ensures.bind
    (question_ensures (ofPools_samePools before)) fun _ => failIf_keeps

theorem orphanChecks_keeps : Keeps (SamePools before)
      (orphanChecks env tx isHigh allowOrphan isLocal) := by
  refine Ensures.bind failIf_keeps fun _ => Ensures.bind failIf_keeps fun _ => ?_
  split
  · exact .pure fun _ => id
  refine Ensures.bind (fun _ same => same) fun _ => Ensures.bind failIf_keeps fun _ => Ensures.bind
    failIf_keeps fun _ => Ensures.bind failIf_keeps fun _ => Ensures.bind
    (getDAAScore_keeps (ofPools_samePools before)) fun _ => .pure fun _ => id

theorem insertionChecks_keeps : Keeps (SamePools before)
      (insertionChecks env tx isHigh allowOrphan isLocal) := by
  refine Ensures.bind (isolation_keeps tx) fun _ => Ensures.bind (fun _ same => same) fun _ =>
    Ensures.bind failIf_keeps fun _ =>
    Ensures.bind (fillInputs_keeps (ofPools_samePools before) tx) fun _ => ?_
  split
  · exact orphanChecks_keeps _ _ _ _
  · exact Ensures.bind (inContext_keeps (ofPools_samePools before) tx isLocal) fun _ => Ensures.bind
      (getDAAScore_keeps (ofPools_samePools before)) fun _ => .pure fun _ => id

theorem replacementChecks_keeps : Keeps (SamePools before) (replacementChecks env tx isHigh) := by
  refine Ensures.bind (isolation_keeps tx) fun _ => Ensures.bind (fun _ same => same) fun _ => ?_
  dsimp only
  split
  · exact insertionChecks_keeps _ _ _ _
  refine Ensures.bind (fillInputs_keeps (ofPools_samePools before) tx) fun _ => Ensures.bind
    failIf_keeps fun _ => Ensures.bind (inContext_keeps (ofPools_samePools before) tx true) fun _ =>
    Ensures.bind (fun _ same => same) fun _ => ?_
  split
  · exact .throw fun _ => id
  · exact Ensures.bind (Insertion.checkReplacement_keeps _ _) fun _ => .pure fun _ => id

theorem checksOf_keeps (call : Call) : Keeps (SamePools before) (checksOf env call) := by
  cases call with
  | validateAndInsertTransaction tx =>
    exact Ensures.bind (insertionChecks_keeps _ _ _ _) fun _ => .pure fun _ => id
  | validateAndInsertTransactionReplacement tx =>
    exact Ensures.bind (replacementChecks_keeps _ _) fun _ => .pure fun _ => id
  | handleNewBlockTransactions | removeTransaction
  | expireOrphanTransactions | expireOldTransactions
  | revalidateHighPriorityTransactions => exact .pure fun _ => id

end Keep

/-- Consensus finds all inputs, and has the DAA score of virtual but once. -/
def failingEnvironment (missing : Nat) : Environment :=
  { lateEnvironment with
    consensusAnswer := fun _ _ => .valid
    virtualDAAScore := fun question =>
      if question = missing then none else some 0 }

/-- A transaction that pays no fee. -/
def freeTransaction : Transaction := { parentTransaction with fee := 0 }

/-- A transaction that pays more for the same input. -/
def replacingTransaction : Transaction := { parentTransaction with id := .filled 3, fee := 20 }

end Htnd.MiningManager.Rejections
