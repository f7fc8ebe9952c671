import Htnd.Lib.RangeLoops
import Htnd.Lib.Slices
import Htnd.Utxo.Entry

/-!
# The state of the mempool

The transaction pool, the orphan pool and the maps that index them, with the
operations on one transaction.  A pool transaction is known by its address,
which is how the lists of chained transactions compare it; the parents it
has in the pool are a field that changes, kept by address.

The unspent outputs of the pool are written and never read, so they are left
out, as are the UTXO entries of the inputs.
-/

namespace Htnd.MiningManager.State

open Lib.RangeLoops Lib.Slices Utxo.Entry

/--
The transaction fields the mempool reads: its inputs by previous outpoint, its
outputs by their number.  An index that does not fit 32 bits would end the
program.
-/
structure Transaction where
  id : DomainTransactionID
  inputs : List DomainOutpoint
  outputs : Nat
  fee : UInt64
  mass : UInt64
  inputs_lt : inputs.length < 2 ^ 32
  outputs_lt : outputs < 2 ^ 32
deriving DecidableEq

def Transaction.outpoints (transaction : Transaction) : List DomainOutpoint :=
  (List.range transaction.outputs).map fun index => ⟨transaction.id, UInt32.ofNat index⟩

/-- `model.MempoolTransaction` at its address, without its parents. -/
structure MempoolTransaction where
  address : Nat
  transaction : Transaction
  isHighPriority : Bool
  addedAtDAAScore : UInt64
deriving DecidableEq

def MempoolTransaction.transactionID (transaction : MempoolTransaction) :
    DomainTransactionID :=
  transaction.transaction.id

structure OrphanTransaction where
  transaction : Transaction
  isHighPriority : Bool
  isLocalSubmission : Bool
  addedAtDAAScore : UInt64
deriving DecidableEq

def OrphanTransaction.transactionID (orphan : OrphanTransaction) :
    DomainTransactionID :=
  orphan.transaction.id

abbrev IDToTransactionMap := FiniteMap DomainTransactionID MempoolTransaction

abbrev IDToTransactionsSliceMap := FiniteMap DomainTransactionID (List MempoolTransaction)

/-- `transactionsPool`, with the index of `mempoolUTXOSet`. -/
structure TransactionsPool where
  allTransactions : IDToTransactionMap
  highPriorityTransactions : IDToTransactionMap
  chainedTransactionsByParentID : IDToTransactionsSliceMap
  transactionsOrderedByFeeRate : List MempoolTransaction
  lastExpireScanDAAScore : UInt64
  transactionByPreviousOutpoint : FiniteMap DomainOutpoint MempoolTransaction
  /-- `parentTransactionsInPool` of the pool transaction at an address. -/
  parentTransactionsInPool : FiniteMap Nat IDToTransactionMap
  /-- The next free address. -/
  nextAddress : Nat

structure OrphansPool where
  allOrphans : FiniteMap DomainTransactionID OrphanTransaction
  orphansByPreviousOutpoint : FiniteMap DomainOutpoint OrphanTransaction
  lastExpireScan : UInt64

/-- `mempool`, with the number of questions it has put to others. -/
structure Mempool where
  pool : TransactionsPool
  orphans : OrphansPool
  questions : Nat

def Mempool.new : Mempool := ⟨⟨∅, ∅, ∅, [], 0, ∅, ∅, 0⟩, ⟨∅, ∅, 0⟩, 0⟩

/-! ## Transactions ordered by fee rate -/

/-- The fee rate: the quotient of the two as a 64-bit float. -/
abbrev FeeRate := UInt64 → UInt64 → Rat

section FeeRate

variable (feeRate : FeeRate)

def MempoolTransaction.rate (transaction : MempoolTransaction) : Rat :=
  feeRate transaction.transaction.fee transaction.transaction.mass

/-- The bytes of an ID, which are compared from the first one on. -/
def byteValues (id : DomainTransactionID) : List Nat := id.hashArray.map UInt8.toNat

def lessOrEqual (id other : DomainTransactionID) : Bool :=
  byteValues id ≤ byteValues other

/-- The test of `findTransactionIndex`: the element does not go before. -/
def notBefore (transaction element : MempoolTransaction) : Bool :=
  element.rate feeRate > transaction.rate feeRate || (element.rate feeRate =
    transaction.rate feeRate && lessOrEqual transaction.transactionID element.transactionID)

/-- `findTransactionIndex`; there is none without fee and mass. -/
def findTransactionIndex (slice : List MempoolTransaction)
    (transaction : MempoolTransaction) : Option (Nat × Bool) :=
  if transaction.transaction.fee = 0 ∨ transaction.transaction.mass = 0 then
    none
  else
    let index := firstAtLeast (notBefore feeRate) slice transaction
    some (index, slice[index]?.map (·.transactionID) = some transaction.transactionID)

def push (slice : List MempoolTransaction) (transaction : MempoolTransaction) :
    Option (List MempoolTransaction) := do
  let (index, _) ← findTransactionIndex feeRate slice transaction
  return slice.take index ++ transaction :: slice.drop index

/--
`Remove`, where `removeTransaction` goes on: a transaction that is not found
is not removed.  A found one has an index within bounds.
-/
def remove (slice : List MempoolTransaction)
    (transaction : MempoolTransaction) : Option (List MempoolTransaction) := do
  let (index, wasFound) ← findTransactionIndex feeRate slice transaction
  return if wasFound then slice.eraseIdx index else slice

end FeeRate

/-! ## Chained transactions -/

/-- The transactions chained to a parent. -/
def chainedTo (chained : IDToTransactionsSliceMap)
    (parentID : DomainTransactionID) : List MempoolTransaction :=
  (chained.lookup parentID).getD []

/-- Chain a transaction to one of its parents. -/
def chain (transaction : MempoolTransaction)
    (chained : IDToTransactionsSliceMap) (parent : MempoolTransaction) :
    IDToTransactionsSliceMap :=
  chained.insert parent.transactionID (chainedTo chained parent.transactionID ++ [transaction])

def removeFromChainedList (child : MempoolTransaction)
    (chained : IDToTransactionsSliceMap) (parentID : DomainTransactionID) :
    IDToTransactionsSliceMap :=
  match chained.lookup parentID with
  | none => chained
  | some children =>
    match children.findIdx? (·.address = child.address) with
    | none => chained
    | some index =>
      let rest := swapRemove children index
      if rest = [] then chained.erase parentID
      else chained.insert parentID rest

/-! ## The transaction pool -/

namespace TransactionsPool

variable (tp : TransactionsPool)

/-- The parents in the pool of a pool transaction. -/
def parentsOf (transaction : MempoolTransaction) : IDToTransactionMap :=
  (tp.parentTransactionsInPool.lookup transaction.address).getD ∅

def getParentTransactionsInPool (transaction : Transaction) :
    IDToTransactionMap :=
  collect (fun previousOutpoint : DomainOutpoint => tp.allTransactions.lookup
    previousOutpoint.transactionID) MempoolTransaction.transactionID transaction.inputs ∅

/-- `NewMempoolTransaction`: an object at the next address. -/
def newMempoolTransaction (transaction : Transaction) (parents : IDToTransactionMap)
    (isHighPriority : Bool) (addedAtDAAScore : UInt64) : MempoolTransaction × TransactionsPool :=
  (⟨tp.nextAddress, transaction, isHighPriority, addedAtDAAScore⟩,
    { tp with
      nextAddress := tp.nextAddress + 1
      parentTransactionsInPool := tp.parentTransactionsInPool.insert tp.nextAddress parents })

/-- The loop of `addMempoolTransaction` over the parents. -/
def chainToParents (transaction : MempoolTransaction) : TransactionsPool :=
  { tp with
    chainedTransactionsByParentID := (tp.parentsOf transaction).entries.foldl
      (fun chained parent => chain transaction chained parent.2) tp.chainedTransactionsByParentID }

/-- `mempoolUTXOSet.addTransaction`. -/
def addToUTXOSet (transaction : MempoolTransaction) : TransactionsPool :=
  { tp with
    transactionByPreviousOutpoint := transaction.transaction.inputs.foldl
      (fun spenders previousOutpoint => spenders.insert previousOutpoint transaction)
      tp.transactionByPreviousOutpoint }

/-- `mempoolUTXOSet.removeTransaction`. -/
def removeFromUTXOSet (transaction : MempoolTransaction) : TransactionsPool :=
  { tp with
    transactionByPreviousOutpoint := transaction.transaction.inputs.foldl
      (fun spenders previousOutpoint => spenders.erase previousOutpoint)
      tp.transactionByPreviousOutpoint }

/--
`addMempoolTransaction` up to the push, which fails without fee or mass and
leaves the rest as it is.
-/
def addMempoolTransaction (feeRate : FeeRate)
    (transaction : MempoolTransaction) : Bool × TransactionsPool :=
  let added := { tp with
    allTransactions := tp.allTransactions.insert transaction.transactionID transaction }
  let added := (added.chainToParents transaction).addToUTXOSet transaction
  match push feeRate added.transactionsOrderedByFeeRate transaction with
  | none => (false, added)
  | some slice =>
    let added := { added with transactionsOrderedByFeeRate := slice }
    if transaction.isHighPriority then
      (true, { added with
        highPriorityTransactions := added.highPriorityTransactions.insert
          transaction.transactionID transaction })
    else (true, added)

/-- The loop of `removeTransaction` over the parents. -/
def unchainFromParents (transaction : MempoolTransaction) : TransactionsPool :=
  { tp with
    chainedTransactionsByParentID := (tp.parentsOf transaction).entries.foldl
      (fun chained parent => removeFromChainedList transaction chained parent.2.transactionID)
      tp.chainedTransactionsByParentID }

/-- `transactionsPool.removeTransaction`; without fee or mass it fails. -/
def removeFromPool (feeRate : FeeRate) (transaction : MempoolTransaction) :
    Bool × TransactionsPool :=
  let removed := tp.unchainFromParents transaction
  let removed := { removed with
    allTransactions := removed.allTransactions.erase transaction.transactionID }
  match remove feeRate removed.transactionsOrderedByFeeRate transaction with
  | none => (false, removed)
  | some slice =>
    (true, { removed with
      transactionsOrderedByFeeRate := slice
      highPriorityTransactions := removed.highPriorityTransactions.erase transaction.transactionID
      chainedTransactionsByParentID := removed.chainedTransactionsByParentID.erase
        transaction.transactionID })

def removeParentTransactionInPool (redeemer : MempoolTransaction)
    (transactionID : DomainTransactionID) : TransactionsPool :=
  { tp with
    parentTransactionsInPool := tp.parentTransactionsInPool.insert
      redeemer.address ((tp.parentsOf redeemer).erase transactionID) }

/-- The loop of `mempool.removeTransaction` over redeemers that stay. -/
def unparentRedeemers (transactionID : DomainTransactionID)
    (redeemers : List MempoolTransaction) : TransactionsPool :=
  redeemers.foldl (fun pool redeemer =>
    pool.removeParentTransactionInPool redeemer transactionID) tp

/-- The loop of `getRedeemers` over the transactions chained to one. -/
def visitRedeemers : List MempoolTransaction → List MempoolTransaction × List MempoolTransaction →
    List DomainTransactionID → (List MempoolTransaction × List MempoolTransaction) × List
    DomainTransactionID
  | [], found, visited => (found, visited)
  | redeemer :: rest, (stack, redeemers), visited =>
    if redeemer.transactionID ∈ visited then
      visitRedeemers rest (stack, redeemers) visited
    else
      visitRedeemers rest (stack ++ [redeemer], redeemers ++ [redeemer])
        (redeemer.transactionID :: visited)

/-- The stack loop of `getRedeemers`. -/
def searchRedeemers : Nat → List MempoolTransaction →
    List MempoolTransaction → List DomainTransactionID → Option (List MempoolTransaction)
  | rounds, stack, redeemers, visited =>
    match stack.getLast? with
    | none => some redeemers
    | some current =>
      match rounds with
      | 0 => none
      | rounds + 1 =>
        let ((stack, redeemers), visited) := visitRedeemers
            (chainedTo tp.chainedTransactionsByParentID current.transactionID)
            (stack.dropLast, redeemers) visited
        searchRedeemers rounds stack redeemers visited

/-- `getRedeemers`; it may need more rounds than it is given. -/
def getRedeemers (rounds : Nat) (transaction : MempoolTransaction) :
    Option (List MempoolTransaction) :=
  tp.searchRedeemers rounds [transaction] [] [transaction.transactionID]

/-- `checkDoubleSpends`: the first transaction that spends an input. -/
def doubleSpend (transaction : Transaction) : Option MempoolTransaction :=
  transaction.inputs.findSome? tp.transactionByPreviousOutpoint.lookup

end TransactionsPool

/-! ## The orphan pool -/

namespace OrphansPool

variable (op : OrphansPool)

/-- `addOrphan`, with the DAA score of virtual. -/
def addOrphan (orphan : OrphanTransaction) : OrphansPool :=
  { op with
    allOrphans := op.allOrphans.insert orphan.transactionID orphan
    orphansByPreviousOutpoint := orphan.transaction.inputs.foldl (fun spenders previousOutpoint =>
          spenders.insert previousOutpoint orphan) op.orphansByPreviousOutpoint }

/-- `checkOrphanDoubleSpend`: the first orphan that spends an input. -/
def orphanDoubleSpend (transaction : Transaction) : Option OrphanTransaction :=
  transaction.inputs.findSome? op.orphansByPreviousOutpoint.lookup

/--
The loop of `removeOrphan` over the inputs.  It stops at an input that is not
in the index.
-/
def forgetInputs : List DomainOutpoint → OrphansPool → Bool × OrphansPool
  | [], op => (true, op)
  | previousOutpoint :: rest, op =>
    match op.orphansByPreviousOutpoint.lookup previousOutpoint with
    | none => (false, op)
    | some _ =>
      forgetInputs rest
        { op with orphansByPreviousOutpoint := op.orphansByPreviousOutpoint.erase previousOutpoint }

end OrphansPool

end Htnd.MiningManager.State
