import Htnd.MiningManager.PoolLists

/-!
# The indexes of the transaction pool

What the maps of the transaction pool say of each other, and that adding and
removing one transaction keeps it.  While a transaction is removed together
with its redeemers, those that are gone are still parents of redeemers that
are not gone yet; the index is stated up to these.
-/

namespace Htnd.MiningManager.PoolIndex

open Lib.RangeLoops Utxo.Entry State PoolLists

/-! ## The indexes -/

/-- The pool holds the transaction. -/
abbrev Holds (tp : TransactionsPool) (transaction : MempoolTransaction) :
    Prop :=
  HeldIn tp.allTransactions MempoolTransaction.transactionID transaction

/--
What the indexes say of a pool whose transactions have the given parents, up
to parents that are gone.
-/
structure PoolIndexed (feeRate : FeeRate) (Gone : DomainTransactionID → Prop)
    (parentsOf : MempoolTransaction → IDToTransactionMap) (tp : TransactionsPool) : Prop where
  ids : ∀ id transaction, tp.allTransactions.lookup id = some transaction →
    transaction.transactionID = id
  populated : ∀ transaction, Holds tp transaction → Populated transaction.transaction
  addresses : ∀ transaction, Holds tp transaction → transaction.address < tp.nextAddress
  distinct : ∀ first second, Holds tp first → Holds tp second →
    first.address = second.address → first = second
  spends : Indexes tp.transactionByPreviousOutpoint (Holds tp)
    fun transaction => transaction.transaction.inputs
  highPriority : ∀ id transaction, tp.highPriorityTransactions.lookup id = some transaction →
    tp.allTransactions.lookup id = some transaction
  listed : Listed feeRate tp.transactionsOrderedByFeeRate (Holds tp)
  chained : Chained tp.chainedTransactionsByParentID fun parentID child =>
    Holds tp child ∧ ¬ Gone parentID ∧ ((parentsOf child).lookup parentID).isSome = true
  parents : ∀ child parentID parent, Holds tp child → (parentsOf child).lookup parentID =
    some parent → parent.transactionID = parentID ∧ (Gone parentID ∨ Holds tp parent)

/-- What the indexes say between the calls. -/
abbrev Indexed (feeRate : FeeRate) (tp : TransactionsPool) : Prop :=
  PoolIndexed feeRate (fun _ => False) tp.parentsOf tp

variable {feeRate : FeeRate} {Gone : DomainTransactionID → Prop} {parentsOf : MempoolTransaction →
  IDToTransactionMap} {tp : TransactionsPool} {transaction : MempoolTransaction}

theorem PoolIndexed.holds_of_lookup (index : PoolIndexed feeRate Gone parentsOf tp)
    {id : DomainTransactionID} (found : tp.allTransactions.lookup id = some transaction) :
    Holds tp transaction := by
  change tp.allTransactions.lookup transaction.transactionID = _
  rw [index.ids id transaction found, found]

/-! ## Removing a transaction -/

section Remove

variable (index : PoolIndexed feeRate Gone parentsOf tp) (holds : Holds tp transaction)
  (ownParents : tp.parentsOf transaction = parentsOf transaction)

include index holds ownParents

/-- Its children stay, with a parent that is gone. -/
theorem removeFromPool_indexed : ∃ tp', (tp.removeFromUTXOSet transaction).removeFromPool feeRate
    transaction = (true, tp') ∧ PoolIndexed feeRate (fun id => Gone id ∨
    id = transaction.transactionID) parentsOf tp' ∧
    (Holds tp' = fun other => Holds tp other ∧ other ≠ transaction) ∧ tp'.parentTransactionsInPool =
    tp.parentTransactionsInPool := by
  rcases remove_eq index.listed (index.populated transaction holds) holds
    (fun other otherHolds => holds.unique otherHolds) with ⟨slice, removes, listed⟩
  let tp' : TransactionsPool := { tp with
    allTransactions := tp.allTransactions.erase transaction.transactionID
    highPriorityTransactions := tp.highPriorityTransactions.erase transaction.transactionID
    chainedTransactionsByParentID := (tp.unchainFromParents
      transaction).chainedTransactionsByParentID.erase transaction.transactionID
    transactionsOrderedByFeeRate := slice
    transactionByPreviousOutpoint :=
      (tp.removeFromUTXOSet transaction).transactionByPreviousOutpoint }
  have removed : (tp.removeFromUTXOSet transaction).removeFromPool feeRate
      transaction = (true, tp') := by
    rw [TransactionsPool.removeFromPool]
    erw [removes]
    rfl
  have isHeld : Holds tp' = fun other => Holds tp other ∧ other ≠ transaction := heldIn_erase holds
  refine ⟨tp', removed, ?_, isHeld, rfl⟩
  constructor
  · intro id other found
    rw [erase_ite] at found
    split_ifs at found
    exact index.ids id other found
  · rw [isHeld]
    exact fun other otherHolds => index.populated other otherHolds.1
  · rw [isHeld]
    exact fun other otherHolds => index.addresses other otherHolds.1
  · rw [isHeld]
    exact fun first second firstHolds secondHolds =>
      index.distinct first second firstHolds.1 secondHolds.1
  · rw [isHeld]
    exact index.spends.eraseEach holds
  · intro id other found
    rw [erase_ite] at found ⊢
    split_ifs at found with isGone
    rw [if_neg isGone]
    exact index.highPriority id other found
  · rw [isHeld]
    exact listed
  · have unchained := index.chained.unchainFromParents (fun owner parent link =>
        (index.parents transaction owner parent holds link).1) (fun owner child linked sameAddr =>
        index.distinct child transaction linked.1 holds sameAddr)
    rw [← ownParents] at unchained
    refine (unchained.erase transaction.transactionID).congr ?_
    intro owner child
    rw [isHeld, ownParents]
    constructor
    · rintro ⟨⟨⟨childHolds, notGone, link⟩, notBoth⟩, ne⟩
      refine ⟨⟨childHolds, ?_⟩, not_or.mpr ⟨notGone, ne⟩, link⟩
      rintro rfl
      exact notBoth ⟨rfl, link⟩
    · rintro ⟨⟨childHolds, isIn⟩, notGone, link⟩
      rw [not_or] at notGone
      exact ⟨⟨⟨childHolds, notGone.1, link⟩, fun both => isIn both.1⟩, notGone.2⟩
  · rw [isHeld]
    intro child owner parent childHolds link
    rcases index.parents child owner parent childHolds.1 link with ⟨isID, gone | parentHolds⟩
    · exact ⟨isID, .inl (.inl gone)⟩
    · by_cases isGone : parent = transaction
      · exact ⟨isID, .inl (.inr (isID ▸ isGone ▸ rfl))⟩
      · exact ⟨isID, .inr ⟨parentHolds, isGone⟩⟩

end Remove

/-- Those that are gone are deleted from the parents. -/
theorem PoolIndexed.dropParents (index : PoolIndexed feeRate Gone parentsOf tp)
    {parentsOf' : MempoolTransaction → IDToTransactionMap}
    (kept : ∀ child, Holds tp child → ∀ owner, ¬ Gone owner → (parentsOf' child).lookup owner =
    (parentsOf child).lookup owner) (dropped : ∀ child, Holds tp child → ∀ owner, Gone owner →
    (parentsOf' child).lookup owner = none) : PoolIndexed feeRate (fun _ => False) parentsOf'
    tp := by
  refine { index with chained := ?_, parents := ?_ }
  · refine index.chained.congr fun owner child => ?_
    constructor
    · rintro ⟨childHolds, notGone, link⟩
      exact ⟨childHolds, id, (kept child childHolds owner notGone).symm ▸ link⟩
    · rintro ⟨childHolds, -, link⟩
      have notGone : ¬ Gone owner := by
        intro gone
        rw [dropped child childHolds owner gone] at link
        cases link
      rw [kept child childHolds owner notGone] at link
      exact ⟨childHolds, notGone, link⟩
  · intro child owner parent childHolds link
    have notGone : ¬ Gone owner := by
      intro gone
      rw [dropped child childHolds owner gone] at link
      cases link
    rw [kept child childHolds owner notGone] at link
    have before := index.parents child owner parent childHolds link
    exact ⟨before.1, .inr (before.2.resolve_left notGone)⟩

/-! ## Adding a transaction -/

theorem PoolIndexed.lookup_of_parent (index : PoolIndexed feeRate Gone parentsOf tp)
    {tx : Transaction} {owner : DomainTransactionID} {parent : MempoolTransaction}
    (link : (tp.getParentTransactionsInPool tx).lookup owner = some parent) : parent.transactionID =
    owner ∧ Holds tp parent := by
  rcases found_of_lookup_collect link with
    absent | ⟨_, -, found, isID⟩
  · cases absent
  · exact ⟨isID, index.holds_of_lookup found⟩

section Add

variable {tx : Transaction} (isHigh : Bool) (score : UInt64) (index : Indexed feeRate tp)
  (isNew : tp.allTransactions.lookup tx.id = none) (free : ∀ point ∈ tx.inputs,
  tp.transactionByPreviousOutpoint.lookup point = none) (populated : Populated tx)

include index isNew free populated

theorem addMempoolTx_indexed : ∃ tp', (tp.newMempoolTransaction tx
    (tp.getParentTransactionsInPool tx) isHigh score).2.addMempoolTransaction feeRate
    ⟨tp.nextAddress, tx, isHigh, score⟩ = (true, tp') ∧ Indexed feeRate tp' ∧ tp'.allTransactions =
    tp.allTransactions.insert tx.id ⟨tp.nextAddress, tx, isHigh, score⟩ := by
  let added : MempoolTransaction := ⟨tp.nextAddress, tx, isHigh, score⟩
  let parents := tp.getParentTransactionsInPool tx
  have notHeld : ¬ Holds tp added := by
    intro held
    have found : tp.allTransactions.lookup tx.id = some added := held
    rw [isNew] at found
    cases found
  rcases push_eq index.listed (show Populated added.transaction from
    populated) notHeld with ⟨slice, pushes, listed⟩
  let tp₁ := (tp.newMempoolTransaction tx parents isHigh score).2
  have ownParents : tp₁.parentsOf added = parents := by
    change ((tp.parentTransactionsInPool.insert tp.nextAddress
      parents).lookup tp.nextAddress).getD ∅ = parents
    rw [AList.lookup_insert]
    rfl
  let tp' : TransactionsPool := { tp₁ with
    allTransactions := tp.allTransactions.insert tx.id added
    highPriorityTransactions :=
      if isHigh then tp.highPriorityTransactions.insert tx.id added
      else tp.highPriorityTransactions
    chainedTransactionsByParentID := (tp₁.chainToParents added).chainedTransactionsByParentID
    transactionsOrderedByFeeRate := slice
    transactionByPreviousOutpoint := (tp₁.addToUTXOSet added).transactionByPreviousOutpoint }
  have otherParents (other : MempoolTransaction) (held : Holds tp other) :
      tp'.parentsOf other = tp.parentsOf other := by
    change ((tp.parentTransactionsInPool.insert tp.nextAddress
      parents).lookup other.address).getD ∅ = _
    rw [AList.lookup_insert_ne (index.addresses other held).ne]
    rfl
  have isAdded : tp₁.addMempoolTransaction feeRate added = (true, tp') := by
    rw [TransactionsPool.addMempoolTransaction]
    erw [pushes]
    cases isHigh with
    | true => rfl
    | false => rfl
  have isHeld : Holds tp' = fun other => other = added ∨ Holds tp other :=
    @heldIn_insert _ _ _ tp.allTransactions _ added isNew
  refine ⟨tp', isAdded, ?_, rfl⟩
  constructor
  · intro id other found
    rw [insert_ite] at found
    split_ifs at found with isID
    · cases found
      exact isID.symm
    · exact index.ids id other found
  · rw [isHeld]
    rintro other (rfl | held)
    · exact populated
    · exact index.populated other held
  · rw [isHeld]
    rintro other (rfl | held)
    · exact Nat.lt_succ_self tp.nextAddress
    · exact Nat.lt_succ_of_lt (index.addresses other held)
  · rw [isHeld]
    rintro first second (rfl | firstHeld) (rfl | secondHeld) sameAddr
    · rfl
    · exact absurd sameAddr.symm (index.addresses second secondHeld).ne
    · exact absurd sameAddr (index.addresses first firstHeld).ne
    · exact index.distinct first second firstHeld secondHeld sameAddr
  · rw [isHeld]
    exact index.spends.insertEach free
  · intro id other found
    change (if isHigh = true then
      tp.highPriorityTransactions.insert tx.id added
      else tp.highPriorityTransactions).lookup id = _ at found
    have old (found : tp.highPriorityTransactions.lookup id = some other) :
        (tp.allTransactions.insert tx.id added).lookup id = some other := by
      have foundBefore := index.highPriority id other found
      rw [AList.lookup_insert_ne, foundBefore]
      rintro rfl
      rw [isNew] at foundBefore
      cases foundBefore
    split_ifs at found
    · rw [insert_ite] at found
      split_ifs at found with isID
      · rw [isID, AList.lookup_insert]
        exact found
      · exact old found
    · exact old found
  · rw [isHeld]
    exact listed
  · have chain := @Chained.chainToParents _ _ added parents index.chained
      (fun owner parent link => (index.lookup_of_parent link).1)
      (fun owner linked => notHeld linked.1)
    rw [← ownParents] at chain
    refine chain.congr fun owner child => ?_
    rw [isHeld]
    constructor
    · rintro (⟨rfl, link⟩ | ⟨held, -, link⟩)
      · exact ⟨.inl rfl, id, link⟩
      · exact ⟨.inr held, id, otherParents child held ▸ link⟩
    · rintro ⟨rfl | held, -, link⟩
      · exact .inl ⟨rfl, link⟩
      · exact .inr ⟨held, id, otherParents child held ▸ link⟩
  · rw [isHeld]
    rintro child owner parent (rfl | held) link
    · change (tp₁.parentsOf added).lookup owner = _ at link
      rw [ownParents] at link
      have isHeldParent := index.lookup_of_parent link
      exact ⟨isHeldParent.1, .inr (.inr isHeldParent.2)⟩
    · rw [otherParents child held] at link
      have before := index.parents child owner parent held link
      exact ⟨before.1, .inr (.inr (before.2.resolve_left id))⟩

end Add

end Htnd.MiningManager.PoolIndex
