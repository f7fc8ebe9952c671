import Htnd.MiningManager.State

/-!
# The calls of the mempool

The model of the calls that change the mempool.  A call returns or fails, and
what it changed before it fails stays changed.  What consensus, the policy
checks, the clock and the order of ranging over a map answer is arbitrary: the
questions are numbered, and the environment has an answer for each number.
-/

namespace Htnd.MiningManager.Mempool

open Lib.RangeLoops Utxo.Entry State

/-- `RejectCode`, as far as it is used here. -/
inductive RejectCode where
  | rejectInvalid
  | rejectDuplicate
  | rejectInsufficientFee
  | rejectImmatureSpend
  | rejectBadOrphan
deriving DecidableEq

/--
The errors of the mempool.  The first three are rule errors: one of its own,
one of consensus and one of the policy checks.
-/
inductive MempoolError where
  | transactionRuleError (code : RejectCode)
  | consensusRuleError
  | policyRuleError
  | feeOrMassNotPopulated
  | inputNotInOrphansByPreviousOutpoint
  | noCoinbaseTransaction
  | consensusFailed
  | unfinished
deriving DecidableEq

def MempoolError.isRuleError : MempoolError → Bool
  | .transactionRuleError _ => true
  | .consensusRuleError => true
  | .policyRuleError => true
  | _ => false

/-- How `ValidateTransactionAndPopulateWithConsensusData` may end. -/
inductive ConsensusAnswer where
  | valid
  | missingOutpoints (outpoints : List DomainOutpoint)
  | immatureSpend
  | ruleError
  | failed
deriving DecidableEq

/-- `Config`, as far as it is used here. -/
structure Config where
  maximumTransactionCount : UInt64
  maximumOrphanTransactionMass : UInt64
  maximumOrphanTransactionCount : UInt64
  inputMinAgeDAAScore : UInt64
  compoundTxMinInputsThreshold : UInt64

/-- What the mempool asks, by the number of the question. -/
structure Environment where
  config : Config
  feeRate : FeeRate
  /-- `checkTransactionStandardInIsolation`, where it is asked for. -/
  isStandardInIsolation : Nat → Transaction → Bool
  consensusAnswer : Nat → Transaction → ConsensusAnswer
  /-- `validateTransactionInContext`: passed, or failed with an error. -/
  contextError : Nat → Transaction → Bool → Option MempoolError
  virtualDAAScore : Nat → Option UInt64
  transactionExpireIntervalDAAScore : Nat → UInt64
  transactionExpireScanIntervalDAAScore : Nat → UInt64
  orphanExpireIntervalDAAScore : Nat → UInt64
  orphanExpireScanIntervalDAAScore : Nat → UInt64
  /-- Whether the last scan for old transactions was a short time ago. -/
  hasJustScanned : Nat → Bool
  /-- The order in which a map with the given keys is ranged over. -/
  rangeOrder : Nat → List DomainTransactionID → List DomainTransactionID
  rangeOrder_perm : ∀ question ids, (rangeOrder question ids).Perm ids
  /-- How many rounds a loop may take. -/
  rounds : Nat

abbrev MempoolM := ExceptT MempoolError (StateM Mempool)

/-- The number of the next question. -/
def nextQuestion : MempoolM Nat := do
  let mp ← get
  set { mp with questions := mp.questions + 1 }
  return mp.questions

def failIf (condition : Prop) [Decidable condition] (error : MempoolError) : MempoolM Unit :=
  if condition then throw error else pure ()

def maximumStandardTransactionMass : UInt64 := 100000

section Environment

variable (env : Environment)

/-! ## Questions -/

def getVirtualDAAScore : MempoolM UInt64 := do
  let question ← nextQuestion
  match env.virtualDAAScore question with
  | some score => return score
  | none => throw .consensusFailed

/--
`ValidateTransactionAndPopulateWithConsensusData`.  The check for duplicate
inputs is that of `ValidateTransactionInIsolation`; the rest is arbitrary.
-/
def validateTransactionAndPopulateWithConsensusData
    (transaction : Transaction) : MempoolM ConsensusAnswer := do
  let question ← nextQuestion
  if transaction.inputs.Nodup then
    return env.consensusAnswer question transaction
  else return .ruleError

def validateTransactionInContext (transaction : Transaction)
    (isLocalSubmission : Bool) : MempoolM Unit := do
  let question ← nextQuestion
  match env.contextError question transaction isLocalSubmission with
  | some error => throw error
  | none => return ()

/-- The keys of a map in the order of ranging over it. -/
def rangeKeys (keys : List DomainTransactionID) : MempoolM (List DomainTransactionID) := do
  let question ← nextQuestion
  return env.rangeOrder question keys

def fillInputsAndGetMissingParents (transaction : Transaction) :
    MempoolM (IDToTransactionMap × List DomainOutpoint) := do
  let parentsInPool := (← get).pool.getParentTransactionsInPool transaction
  match ← validateTransactionAndPopulateWithConsensusData env transaction with
  | .valid => return (parentsInPool, [])
  | .missingOutpoints outpoints => return (parentsInPool, outpoints)
  | .immatureSpend => throw (.transactionRuleError .rejectImmatureSpend)
  | .ruleError => throw .consensusRuleError
  | .failed => throw .consensusFailed

def looksLikeCompoundTransaction (transaction : Transaction) : Bool :=
  UInt64.ofNat transaction.inputs.length ≥ env.config.compoundTxMinInputsThreshold ∨
    transaction.mass > maximumStandardTransactionMass / 2

def raisePriorityIfCompound (transaction : Transaction) (isHighPriority : Bool) : Bool :=
  if isHighPriority ∨ ¬ looksLikeCompoundTransaction env transaction then
    isHighPriority
  else if env.config.compoundTxMinInputsThreshold = 0 ∧
      transaction.mass ≤ maximumStandardTransactionMass / 2 then
    isHighPriority
  else true

/-! ## Removing -/

/-- Remove the orphan that spends an output, with what removes an orphan. -/
def removeRedeemerAt (removeOrphan : DomainTransactionID → MempoolM Unit)
    (outpoint : DomainOutpoint) : MempoolM Unit := do
  match (← get).orphans.orphansByPreviousOutpoint.lookup outpoint with
  | some orphan => removeOrphan orphan.transactionID
  | none => pure ()

/-- `removeRedeemersOf`, with what removes an orphan. -/
def removeRedeemersWith (removeOrphan : DomainTransactionID → MempoolM Unit) :
    List DomainOutpoint → MempoolM Unit
  | [] => return ()
  | outpoint :: rest => do
    removeRedeemerAt removeOrphan outpoint
    removeRedeemersWith removeOrphan rest

/-- `removeOrphan`, with what follows for the redeemers. -/
def forgetOrphan (removeRedeemersOf : Transaction → MempoolM Unit)
    (orphanTransactionID : DomainTransactionID) : MempoolM Unit := do
  let mp ← get
  match mp.orphans.allOrphans.lookup orphanTransactionID with
  | none => return ()
  | some orphan =>
    let forgotten := OrphansPool.forgetInputs orphan.transaction.inputs
      { mp.orphans with
        allOrphans := mp.orphans.allOrphans.erase orphanTransactionID }
    set { mp with orphans := forgotten.2 }
    failIf (forgotten.1 = false) .inputNotInOrphansByPreviousOutpoint
    removeRedeemersOf orphan.transaction

/-- `removeOrphan`, with the depth to which it may call itself. -/
def removeOrphanToDepth (removeRedeemers : Bool) : Nat → DomainTransactionID → MempoolM Unit
  | 0 => forgetOrphan fun _ =>
    if removeRedeemers then throw .unfinished else return ()
  | depth + 1 => forgetOrphan fun transaction =>
    if removeRedeemers then
      removeRedeemersWith (removeOrphanToDepth removeRedeemers depth) transaction.outpoints
    else return ()

/-- `removeOrphan`: a call within it finds fewer orphans. -/
def removeOrphan (orphanTransactionID : DomainTransactionID)
    (removeRedeemers : Bool) : MempoolM Unit := do
  removeOrphanToDepth removeRedeemers (← get).orphans.allOrphans.entries.length orphanTransactionID

def removeRedeemersOf (transaction : Transaction) : MempoolM Unit :=
  removeRedeemersWith (removeOrphan · true) transaction.outpoints

/--
`removeTransactionFromSets`.  Without `removeRedeemers` the orphans only lose
the UTXO entries of the removed transaction.
-/
def removeTransactionFromSets (transaction : MempoolTransaction)
    (removeRedeemers : Bool) : MempoolM Unit := do
  let mp ← get
  let removed := (mp.pool.removeFromUTXOSet transaction).removeFromPool env.feeRate transaction
  set { mp with pool := removed.2 }
  failIf (removed.1 = false) .feeOrMassNotPopulated
  if removeRedeemers then removeRedeemersOf transaction.transaction
  else return ()

/-- The loop of `removeTransaction` over what is removed. -/
def removeAllFromSets (removeRedeemers : Bool) : List MempoolTransaction → MempoolM Unit
  | [] => return ()
  | transaction :: rest => do
    removeTransactionFromSets env transaction removeRedeemers
    removeAllFromSets removeRedeemers rest

/-- `removeTransaction`; an orphan is removed from the orphan pool only. -/
def removeTransaction (transactionID : DomainTransactionID)
    (removeRedeemers : Bool) : MempoolM Unit := do
  let mp ← get
  if (mp.orphans.allOrphans.lookup transactionID).isSome then
    removeOrphan transactionID removeRedeemers
  else
    match mp.pool.allTransactions.lookup transactionID with
    | none => return ()
    | some transaction =>
      match mp.pool.getRedeemers env.rounds transaction with
      | none => throw .unfinished
      | some redeemers =>
        if removeRedeemers then
          removeAllFromSets env true (transaction :: redeemers)
          removeRedeemersOf transaction.transaction
        else
          set { mp with
            pool := mp.pool.unparentRedeemers transactionID redeemers }
          removeAllFromSets env false [transaction]

/-! ## The bounds of the pools -/

/-- The search of `limitTransactionCount` for what may be removed. -/
def findEvictable (slice : List MempoolTransaction) (count : Nat) :
    Nat → Nat → Option (Nat × MempoolTransaction)
  | 0, _ => none
  | tries + 1, currentIndex =>
    match slice[currentIndex]? with
    | none => none
    | some transaction =>
      if ¬ transaction.isHighPriority then
        some (currentIndex, transaction)
      else if currentIndex + 1 ≥ count then none
      else findEvictable slice count tries (currentIndex + 1)

/-- The loop of `limitTransactionCount`. -/
def limitCount : Nat → Nat → MempoolM Unit
  | 0, _ => throw .unfinished
  | rounds + 1, currentIndex => do
    let mp ← get
    if UInt64.ofNat mp.pool.allTransactions.entries.length ≤
        env.config.maximumTransactionCount then return ()
    else
      match findEvictable mp.pool.transactionsOrderedByFeeRate
          mp.pool.allTransactions.entries.length
          (mp.pool.transactionsOrderedByFeeRate.length + 1) currentIndex with
      | none => return ()
      | some (currentIndex, transaction) =>
        removeTransaction env transaction.transactionID true
        if currentIndex ≥ (← get).pool.allTransactions.entries.length then
          return ()
        else limitCount rounds currentIndex

def limitTransactionCount : MempoolM Unit := limitCount env env.rounds 0

def isProtectedOrphan (orphan : OrphanTransaction) : Bool :=
  orphan.isHighPriority ∧ orphan.isLocalSubmission

def randomEvictableOrphan : MempoolM (Option OrphanTransaction) := do
  let mp ← get
  let keys ← rangeKeys env mp.orphans.allOrphans.keys
  return keys.findSome? fun id => (mp.orphans.allOrphans.lookup id).filter (¬ isProtectedOrphan ·)

/-- The loop of `limitOrphanPoolSize`. -/
def limitOrphans : Nat → MempoolM Unit
  | 0 => throw .unfinished
  | rounds + 1 => do
    if UInt64.ofNat (← get).orphans.allOrphans.entries.length ≤
        env.config.maximumOrphanTransactionCount then return ()
    else
      match ← randomEvictableOrphan env with
      | none => return ()
      | some orphan =>
        removeOrphan orphan.transactionID false
        limitOrphans rounds

def maybeAddOrphan (transaction : Transaction)
    (isHighPriority isLocalSubmission : Bool) : MempoolM Unit := do
  if env.config.maximumOrphanTransactionCount = 0 then return ()
  else
    let mp ← get
    failIf (mp.orphans.allOrphans.lookup transaction.id).isSome
      (.transactionRuleError .rejectDuplicate)
    failIf (transaction.mass > env.config.maximumOrphanTransactionMass)
      (.transactionRuleError .rejectBadOrphan)
    failIf (mp.orphans.orphanDoubleSpend transaction).isSome
      (.transactionRuleError .rejectDuplicate)
    let score ← getVirtualDAAScore env
    modify fun mp => { mp with
      orphans := mp.orphans.addOrphan ⟨transaction, isHighPriority, isLocalSubmission, score⟩ }
    limitOrphans env env.rounds

/-! ## Adding -/

/-- `addTransaction`; `unorphanTransaction` adds in the same way. -/
def addTransaction (transaction : Transaction)
    (parentTransactionsInPool : IDToTransactionMap) (isHighPriority : Bool) : MempoolM Unit := do
  let score ← getVirtualDAAScore env
  let mp ← get
  let created := mp.pool.newMempoolTransaction transaction
    parentTransactionsInPool isHighPriority score
  let added := created.2.addMempoolTransaction env.feeRate created.1
  set { mp with pool := added.2 }
  failIf (added.1 = false) .feeOrMassNotPopulated

/-- The answer of consensus to a transaction that is to be promoted. -/
def validateOrphan (transaction : Transaction) : MempoolM Unit := do
  match ← validateTransactionAndPopulateWithConsensusData env transaction with
  | .valid => return ()
  | .missingOutpoints _ => throw .consensusRuleError
  | .immatureSpend => throw (.transactionRuleError .rejectImmatureSpend)
  | .ruleError => throw .consensusRuleError
  | .failed => throw .consensusFailed

def unorphanTransaction (orphan : OrphanTransaction) : MempoolM Unit := do
  removeOrphan orphan.transactionID false
  failIf ((← get).pool.doubleSpend orphan.transaction).isSome
    (.transactionRuleError .rejectDuplicate)
  validateOrphan env orphan.transaction
  validateTransactionInContext env orphan.transaction orphan.isLocalSubmission
  addTransaction env orphan.transaction
    ((← get).pool.getParentTransactionsInPool orphan.transaction) orphan.isHighPriority

/-- Promote an orphan none of whose inputs is missing. -/
def unorphanIfComplete (orphan : OrphanTransaction) : MempoolM Bool := do
  let filled ← fillInputsAndGetMissingParents env orphan.transaction
  if filled.2 ≠ [] then return false
  else
    unorphanTransaction env orphan
    return true

/-- A rule error is logged only, and the next output is looked at. -/
def tryToUnorphan (orphan : OrphanTransaction) : MempoolM Bool :=
  tryCatch (unorphanIfComplete env orphan) fun error =>
    if error.isRuleError then pure false else throw error

/-- The loop over the outputs of an accepted transaction. -/
def promoteRedeemers : List DomainOutpoint → MempoolM (List Transaction)
  | [] => return []
  | outpoint :: rest => do
    match (← get).orphans.orphansByPreviousOutpoint.lookup outpoint with
    | none => promoteRedeemers rest
    | some orphan =>
      let isPromoted ← tryToUnorphan env orphan
      let others ← promoteRedeemers rest
      return if isPromoted then orphan.transaction :: others else others

/-- The queue loop of `processOrphansAfterAcceptedTransaction`. -/
def processOrphans : Nat → List Transaction → MempoolM (List Transaction)
  | _, [] => return []
  | 0, _ :: _ => throw .unfinished
  | rounds + 1, current :: queue => do
    let promoted ← promoteRedeemers env current.outpoints
    let others ← processOrphans rounds (queue ++ promoted)
    return promoted ++ others

/-- Promote the orphans it completes. -/
def processOrphansAfterAcceptedTransaction (accepted : Transaction) : MempoolM (List Transaction) :=
  processOrphans env env.rounds [accepted]

def validateTransactionInIsolation (transaction : Transaction) : MempoolM Unit := do
  failIf ((← get).pool.allTransactions.lookup transaction.id).isSome
    (.transactionRuleError .rejectDuplicate)
  let question ← nextQuestion
  failIf (¬ env.isStandardInIsolation question transaction) .policyRuleError

/-- The end of `validateAndInsertTransaction` for an orphan. -/
def insertOrphan (transaction : Transaction) (isHighPriority allowOrphan isLocalSubmission : Bool) :
    MempoolM (List Transaction) := do
  failIf (env.config.inputMinAgeDAAScore > 0) (.transactionRuleError .rejectImmatureSpend)
  failIf (¬ allowOrphan) (.transactionRuleError .rejectBadOrphan)
  maybeAddOrphan env transaction isHighPriority isLocalSubmission
  return []

/-- What follows the checks of an accepted transaction. -/
def acceptTransaction (transaction : Transaction)
    (parentsInPool : IDToTransactionMap) (isHighPriority : Bool) : MempoolM (List Transaction) := do
  addTransaction env transaction parentsInPool isHighPriority
  let acceptedOrphans ← processOrphansAfterAcceptedTransaction env transaction
  limitTransactionCount env
  return transaction :: acceptedOrphans

def validateAndInsertTransaction (transaction : Transaction)
    (isHighPriority allowOrphan isLocalSubmission : Bool) : MempoolM (List Transaction) := do
  let isHighPriority := raisePriorityIfCompound env transaction isHighPriority
  validateTransactionInIsolation env transaction
  failIf ((← get).pool.doubleSpend transaction).isSome (.transactionRuleError .rejectDuplicate)
  let filled ← fillInputsAndGetMissingParents env transaction
  if filled.2 ≠ [] then
    insertOrphan env transaction isHighPriority allowOrphan isLocalSubmission
  else
    validateTransactionInContext env transaction isLocalSubmission
    acceptTransaction env transaction filled.1 isHighPriority

/-! ## Replacing -/

/-- `mempoolConflicts`, in the order of the transaction IDs. -/
def mempoolConflicts (tp : TransactionsPool) (transaction : Transaction) :
    List MempoolTransaction :=
  let conflicts : IDToTransactionMap := collect tp.transactionByPreviousOutpoint.lookup
      MempoolTransaction.transactionID transaction.inputs ∅
  (conflicts.entries.map Sigma.snd).insertionSort fun first second =>
    lessOrEqual first.transactionID second.transactionID = true

def replacementRemovalSet (tp : TransactionsPool) :
    List MempoolTransaction → Option IDToTransactionMap
  | [] => some ∅
  | conflict :: rest => do
    let redeemers ← tp.getRedeemers env.rounds conflict
    let others ← replacementRemovalSet tp rest
    return (conflict :: redeemers).foldl
      (fun set transaction => set.insert transaction.transactionID transaction) others

/-- `replacementRemovalTotals`: fee and mass, in 64 bits. -/
def replacementRemovalTotals (transactions : IDToTransactionMap) : UInt64 × UInt64 :=
  transactions.entries.foldl (fun totals item => (totals.1 + item.2.transaction.fee,
    totals.2 + item.2.transaction.mass)) (0, 0)

/-- The loop that removes the conflicts. -/
def removeConflicts : List MempoolTransaction → MempoolM Unit
  | [] => return ()
  | conflict :: rest => do
    removeTransaction env conflict.transactionID true
    removeConflicts rest

/-- The checks of a replacement against what it evicts. -/
def checkReplacement (transaction : Transaction)
    (removed : IDToTransactionMap) : MempoolM Unit := do
  let totals := replacementRemovalTotals removed
  failIf (transaction.inputs.any fun previousOutpoint =>
      (removed.lookup previousOutpoint.transactionID).isSome) (.transactionRuleError .rejectInvalid)
  failIf (transaction.fee ≤ totals.1) (.transactionRuleError .rejectInsufficientFee)
  failIf (transaction.mass = 0 ∨ totals.2 = 0) (.transactionRuleError .rejectInvalid)
  failIf (env.feeRate transaction.fee transaction.mass ≤ env.feeRate totals.1 totals.2)
    (.transactionRuleError .rejectInsufficientFee)

/-- Evict the conflicts, and accept the transaction in their place. -/
def replaceConflicts (transaction : Transaction) (isHighPriority : Bool)
    (conflicts : List MempoolTransaction) : MempoolM (List Transaction) := do
  match replacementRemovalSet env (← get).pool conflicts with
  | none => throw .unfinished
  | some removed =>
    checkReplacement env transaction removed
    removeConflicts env conflicts
    acceptTransaction env transaction
      ((← get).pool.getParentTransactionsInPool transaction) isHighPriority

def validateAndInsertTransactionReplacement (transaction : Transaction)
    (isHighPriority : Bool) : MempoolM (List Transaction) := do
  let isHighPriority := raisePriorityIfCompound env transaction isHighPriority
  validateTransactionInIsolation env transaction
  let conflicts := mempoolConflicts (← get).pool transaction
  if conflicts = [] then
    validateAndInsertTransaction env transaction isHighPriority false true
  else
    let filled ← fillInputsAndGetMissingParents env transaction
    failIf (filled.2 ≠ []) (.transactionRuleError .rejectBadOrphan)
    validateTransactionInContext env transaction true
    replaceConflicts env transaction isHighPriority conflicts

/-! ## New blocks -/

/-- Remove the transaction that spends an outpoint. -/
def removeDoubleSpendAt (previousOutpoint : DomainOutpoint) : MempoolM Unit := do
  match (← get).pool.transactionByPreviousOutpoint.lookup previousOutpoint with
  | some redeemer => removeTransaction env redeemer.transactionID true
  | none => return ()

def removeDoubleSpends : List DomainOutpoint → MempoolM Unit
  | [] => return ()
  | previousOutpoint :: rest => do
    removeDoubleSpendAt env previousOutpoint
    removeDoubleSpends rest

/-- The body of the loop of `expireOrphanTransactions`. -/
def expireOrphan (virtualDAAScore : UInt64) (id : DomainTransactionID) : MempoolM Unit := do
  match (← get).orphans.allOrphans.lookup id with
  | none => return ()
  | some orphan =>
    let question ← nextQuestion
    if ¬ isProtectedOrphan orphan ∧ virtualDAAScore - orphan.addedAtDAAScore >
          env.orphanExpireIntervalDAAScore question then
      removeOrphan id false
    else return ()

/-- The loop of `expireOrphanTransactions` over the orphans. -/
def expireOrphans (virtualDAAScore : UInt64) : List DomainTransactionID → MempoolM Unit
  | [] => return ()
  | id :: rest => do
    expireOrphan env virtualDAAScore id
    expireOrphans virtualDAAScore rest

def expireOrphanTransactions : MempoolM Unit := do
  let virtualDAAScore ← getVirtualDAAScore env
  let question ← nextQuestion
  let mp ← get
  if virtualDAAScore - mp.orphans.lastExpireScan <
      env.orphanExpireScanIntervalDAAScore question then return ()
  else
    let keys ← rangeKeys env mp.orphans.allOrphans.keys
    expireOrphans env virtualDAAScore keys
    modify fun mp => { mp with
      orphans := { mp.orphans with lastExpireScan := virtualDAAScore } }

/-- The body of the loop of `expireOldTransactions`. -/
def expireTransaction (virtualDAAScore : UInt64) (id : DomainTransactionID) : MempoolM Unit := do
  match (← get).pool.allTransactions.lookup id with
  | none => return ()
  | some transaction =>
    let question ← nextQuestion
    if ¬ transaction.isHighPriority ∧ virtualDAAScore - transaction.addedAtDAAScore >
          env.transactionExpireIntervalDAAScore question then
      removeTransaction env transaction.transactionID true
    else return ()

/-- The loop of `expireOldTransactions` over the pool. -/
def expireTransactions (virtualDAAScore : UInt64) : List DomainTransactionID → MempoolM Unit
  | [] => return ()
  | id :: rest => do
    expireTransaction env virtualDAAScore id
    expireTransactions virtualDAAScore rest

def expireOldTransactions : MempoolM Unit := do
  let virtualDAAScore ← getVirtualDAAScore env
  let question ← nextQuestion
  let mp ← get
  if virtualDAAScore - mp.pool.lastExpireScanDAAScore < env.transactionExpireScanIntervalDAAScore
        question ∨ env.hasJustScanned question then return ()
  else
    let keys ← rangeKeys env mp.pool.allTransactions.keys
    expireTransactions env virtualDAAScore keys
    modify fun mp => { mp with
      pool := { mp.pool with lastExpireScanDAAScore := virtualDAAScore } }

/-- The loop of `handleNewBlockTransactions`. -/
def handleBlockTransactions : List Transaction → MempoolM (List Transaction)
  | [] => return []
  | transaction :: rest => do
    removeTransaction env transaction.id false
    removeDoubleSpends env transaction.inputs
    removeOrphan transaction.id false
    let accepted ← processOrphansAfterAcceptedTransaction env transaction
    let others ← handleBlockTransactions rest
    return accepted ++ others

/-- `HandleNewBlockTransactions`; the first transaction is the coinbase. -/
def handleNewBlockTransactions (blockTransactions : List Transaction) :
    MempoolM (List Transaction) := do
  match blockTransactions with
  | [] => throw .noCoinbaseTransaction
  | _ :: transactions =>
    let acceptedOrphans ← handleBlockTransactions env transactions
    expireOrphanTransactions env
    expireOldTransactions env
    return acceptedOrphans

/-! ## Revalidating -/

/-- Whether a transaction misses inputs or breaks a rule. -/
def isNoLongerValid (transaction : Transaction) : MempoolM Bool :=
  tryCatch (do
      let filled ← fillInputsAndGetMissingParents env transaction
      return filled.2 ≠ [])
    fun error => if error.isRuleError then pure true else throw error

def revalidateTransaction (transaction : MempoolTransaction) : MempoolM Bool := do
  if ← isNoLongerValid env transaction.transaction then
    removeTransaction env transaction.transactionID false
    return false
  else return true

structure TxNode where
  children : List DomainTransactionID
  nonVisitedParents : Int
  tx : MempoolTransaction
  visited : Bool

abbrev TxDAG := FiniteMap DomainTransactionID TxNode

/-- `maybeAddNode`, for a transaction of high priority. -/
def maybeAddNode (txDAG : TxDAG) (id : DomainTransactionID)
    (tx : MempoolTransaction) : TxNode × TxDAG :=
  match txDAG.lookup id with
  | some node => (node, txDAG)
  | none => (⟨[], 0, tx, false⟩, txDAG.insert id ⟨[], 0, tx, false⟩)

/-- Add the node of a transaction, and an edge from each of its parents. -/
def addToDAG (highPriority : IDToTransactionMap) (id : DomainTransactionID)
    (tx : MempoolTransaction) (txDAG : TxDAG) : TxDAG :=
  let (_, txDAG) := maybeAddNode txDAG id tx
  let (txDAG, parents) := tx.transaction.inputs.foldl
      (fun (state : TxDAG × List DomainTransactionID) previousOutpoint =>
        let parentID := previousOutpoint.transactionID
        match highPriority.lookup parentID with
        | none => state
        | some parent =>
          let (node, txDAG) := maybeAddNode state.1 parentID parent
          (txDAG.insert parentID
            { node with children := node.children.insert id },
            state.2.insert parentID))
      (txDAG, [])
  match txDAG.lookup id with
  | some node => txDAG.insert id { node with nonVisitedParents := parents.length }
  | none => txDAG

/-- The DAG of the transactions of high priority, from parents to children. -/
def buildDAG (highPriority : IDToTransactionMap) : List DomainTransactionID → TxDAG → TxDAG
  | [], txDAG => txDAG
  | id :: rest, txDAG =>
    match highPriority.lookup id with
    | some tx => buildDAG highPriority rest (addToDAG highPriority id tx txDAG)
    | none => buildDAG highPriority rest txDAG

/-- Note the visit of a parent at its children. -/
def countVisit : List DomainTransactionID → TxDAG →
    List DomainTransactionID → TxDAG × List DomainTransactionID
  | [], txDAG, queue => (txDAG, queue)
  | child :: rest, txDAG, queue =>
    match txDAG.lookup child with
    | none => countVisit rest txDAG queue
    | some node =>
      let left := node.nonVisitedParents - 1
      countVisit rest
        (txDAG.insert child { node with nonVisitedParents := left })
        (if left = 0 then queue ++ [child] else queue)

/-- The queue loop of `revalidateHighPriorityTransactions`. -/
def revalidateQueue : Nat → TxDAG → List DomainTransactionID → MempoolM (List Transaction)
  | _, _, [] => return []
  | 0, _, _ :: _ => throw .unfinished
  | rounds + 1, txDAG, id :: queue =>
    match txDAG.lookup id with
    | none => revalidateQueue rounds txDAG queue
    | some node =>
      if node.visited then revalidateQueue rounds txDAG queue
      else do
        let txDAG := txDAG.insert id { node with visited := true }
        let isValid ← revalidateTransaction env node.tx
        let children ← rangeKeys env node.children
        let (txDAG, queue) := countVisit children txDAG queue
        let others ← revalidateQueue rounds txDAG queue
        return if isValid then node.tx.transaction :: others else others

def revalidateHighPriorityTransactions : MempoolM (List Transaction) := do
  let highPriority := (← get).pool.highPriorityTransactions
  let ids ← rangeKeys env highPriority.keys
  let txDAG := buildDAG highPriority ids ∅
  let queue := ids.filter fun id => (txDAG.lookup id).any (·.nonVisitedParents = 0)
  revalidateQueue env env.rounds txDAG queue

end Environment

end Htnd.MiningManager.Mempool
