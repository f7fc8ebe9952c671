import Htnd.MiningManager.PoolIndex

/-!
# Removing a transaction and its redeemers

The search for redeemers finds every transaction that spends from the removed
one directly or through others.  When all of them are removed no transaction
in the pool has a parent that is gone; when only the first is removed, it is
deleted from the parents of those that are found.
-/

namespace Htnd.MiningManager.Redeemers

open Lib.RangeLoops Utxo.Entry State PoolIndex List
open MempoolTransaction (transactionID)

variable {feeRate : FeeRate} {tp : TransactionsPool} {root : MempoolTransaction}

/-! ## The search -/

/-- The visit appends what has not been visited. -/
theorem visitRedeemers_eq (children stack redeemers : List MempoolTransaction)
    (seen : List DomainTransactionID) : ∃ new visited',
    TransactionsPool.visitRedeemers children (stack, redeemers) seen =
    ((stack ++ new, redeemers ++ new), visited') ∧
    (∀ id, id ∈ visited' ↔ id ∈ seen ∨ id ∈ new.map transactionID) ∧
    (∀ child ∈ new, child ∈ children ∧ child.transactionID ∉ seen) ∧ (new.map transactionID).Nodup ∧
    ∀ child ∈ children, child.transactionID ∈ visited' := by
  induction children generalizing stack redeemers seen with
  | nil =>
    refine ⟨[], seen, ?_, ?_, ?_, ?_, ?_⟩
    · simp [TransactionsPool.visitRedeemers]
    · simp
    · simp
    · simp
    · simp
  | cons first rest ih =>
    rw [TransactionsPool.visitRedeemers]
    split_ifs with isVisited
    · rcases ih stack redeemers seen with ⟨new, visited', isResult, isEither, isNew, nodup, covers⟩
      refine ⟨new, visited', isResult, isEither, ?_, nodup, ?_⟩
      · exact fun child mem => ⟨.tail first (isNew child mem).1, (isNew child mem).2⟩
      · rw [forall_mem_cons]
        exact ⟨(isEither _).mpr (.inl isVisited), covers⟩
    · rcases ih (stack ++ [first]) (redeemers ++ [first]) (first.transactionID :: seen) with
        ⟨new, visited', isResult, isEither, isNew, nodup, covers⟩
      refine ⟨first :: new, visited', ?_, ?_, ?_, ?_, ?_⟩
      · rw [isResult, append_assoc, append_assoc]
        rfl
      · intro id
        rw [isEither, mem_cons, map_cons, mem_cons]
        tauto
      · rw [forall_mem_cons]
        refine ⟨⟨.head _, isVisited⟩, ?_⟩
        intro child mem
        have isUnseen := (isNew child mem).2
        rw [mem_cons, not_or] at isUnseen
        exact ⟨.tail first (isNew child mem).1, isUnseen.2⟩
      · rw [map_cons, nodup_cons]
        refine ⟨?_, nodup⟩
        intro isAgain
        rcases mem_map.mp isAgain with ⟨child, mem, sameID⟩
        exact (isNew child mem).2 (sameID ▸ (.head _))
      · rw [forall_mem_cons]
        exact ⟨(isEither _).mpr (.inl (.head _)), covers⟩

/-- The state of the search: who is not on the stack has been looked at. -/
structure Searching (tp : TransactionsPool) (root : MempoolTransaction)
    (stack redeemers : List MempoolTransaction) (visited : List DomainTransactionID) : Prop where
  visited_iff : ∀ id, id ∈ visited ↔ id ∈ (root :: redeemers).map transactionID
  distinct : ((root :: redeemers).map transactionID).Nodup
  held : ∀ redeemer ∈ redeemers, Holds tp redeemer
  closed : ∀ parent ∈ root :: redeemers, parent ∈ stack ∨
    ∀ child ∈ chainedTo tp.chainedTransactionsByParentID parent.transactionID,
    child.transactionID ∈ visited

theorem Searching.visit (index : Indexed feeRate tp) {stack redeemers : List MempoolTransaction}
    {here : MempoolTransaction} {seen : List DomainTransactionID}
    (search : Searching tp root (stack ++ [here]) redeemers seen) : ∃ new visited',
    TransactionsPool.visitRedeemers (chainedTo tp.chainedTransactionsByParentID here.transactionID)
    (stack, redeemers) seen = ((stack ++ new, redeemers ++ new), visited') ∧
    Searching tp root (stack ++ new) (redeemers ++ new) visited' := by
  rcases visitRedeemers_eq (chainedTo tp.chainedTransactionsByParentID here.transactionID) stack
    redeemers seen with ⟨new, visited', isResult, isEither, isNew, nodup, covers⟩
  refine ⟨new, visited', isResult, ?_⟩
  constructor
  · intro id
    rw [isEither, search.visited_iff, ← cons_append, map_append, mem_append]
  · rw [← cons_append, map_append, nodup_append]
    refine ⟨search.distinct, nodup, ?_⟩
    rintro id isOld _ isNewID rfl
    rcases mem_map.mp isNewID with ⟨child, mem, rfl⟩
    exact (isNew child mem).2 ((search.visited_iff _).mpr isOld)
  · intro redeemer mem
    rcases mem_append.mp mem with isOld | isAdded
    · exact search.held redeemer isOld
    · exact ((index.chained.mem_iff _ redeemer).mp (isNew redeemer isAdded).1).1
  · intro parent mem
    rw [← cons_append] at mem
    rcases mem_append.mp mem with isOld | isAdded
    · rcases search.closed parent isOld with onStack | isClosed
      · rcases mem_append.mp onStack with isBelow | isTop
        · exact .inl (mem_append_left new isBelow)
        · rw [mem_singleton.mp isTop]
          exact .inr covers
      · exact .inr fun child isChild => (isEither _).mpr (.inl (isClosed child isChild))
    · exact .inl (mem_append_right stack isAdded)

theorem Searching.search (index : Indexed feeRate tp) (rounds : Nat)
    {stack redeemers result : List MempoolTransaction} {visited : List DomainTransactionID}
    (search : Searching tp root stack redeemers visited)
    (isResult : tp.searchRedeemers rounds stack redeemers visited = some result) : ∃ visited',
    Searching tp root [] result visited' := by
  fun_induction tp.searchRedeemers rounds stack redeemers visited with
  | case1 rounds stack redeemers visited empty =>
    rw [List.getLast?_eq_none_iff.mp empty] at search
    cases isResult
    exact ⟨visited, search⟩
  | case2 => cases isResult
  | case3 stack redeemers visited here isTop rounds pushed found seen isVisit ih =>
    rcases List.getLast?_eq_some_iff.mp isTop with ⟨_, rfl⟩
    rcases search.visit index with ⟨_, visited', visits, after⟩
    rw [dropLast_concat, visits] at isVisit
    cases isVisit
    exact ih after isResult

/-- The redeemers are distinct, and nobody else spends from them. -/
structure AllRedeemers (tp : TransactionsPool) (root : MempoolTransaction)
    (redeemers : List MempoolTransaction) : Prop where
  distinct : ((root :: redeemers).map transactionID).Nodup
  held : ∀ redeemer ∈ redeemers, Holds tp redeemer
  closed : ∀ parent ∈ root :: redeemers, ∀ child ∈ chainedTo tp.chainedTransactionsByParentID
    parent.transactionID, child ∈ root :: redeemers

theorem getRedeemers_all (index : Indexed feeRate tp) {rounds : Nat}
    (holds : Holds tp root) {redeemers : List MempoolTransaction}
    (isResult : tp.getRedeemers rounds root = some redeemers) : AllRedeemers tp root redeemers := by
  have start : Searching tp root [root] [] [root.transactionID] := by
    constructor
    · simp
    · simp
    · simp
    · exact fun parent mem => .inl mem
  rcases start.search index rounds isResult with ⟨_, final⟩
  refine ⟨final.distinct, final.held, ?_⟩
  intro parent mem child isChild
  have isVisited := (final.closed parent mem).resolve_left not_mem_nil child isChild
  rw [final.visited_iff] at isVisited
  rcases mem_map.mp isVisited with ⟨same, isSame, sameID⟩
  have childHolds := ((index.chained.mem_iff _ child).mp isChild).1
  have sameHolds : Holds tp same := by
    rcases mem_cons.mp isSame with rfl | isRedeemer
    · exact holds
    · exact final.held same isRedeemer
  rw [childHolds.unique sameHolds sameID] at isSame
  exact isSame

/-! ## Removing all of them -/

/-- The pool when some of its transactions have been removed. -/
structure Removed (feeRate : FeeRate) (tp₀ : TransactionsPool)
    (gone : List MempoolTransaction) (tp : TransactionsPool) : Prop where
  indexed : PoolIndexed feeRate (fun id => id ∈ gone.map transactionID) tp₀.parentsOf tp
  holds : Holds tp = fun other => Holds tp₀ other ∧ other ∉ gone
  parents : tp.parentTransactionsInPool = tp₀.parentTransactionsInPool

namespace Removed

variable {tp₀ : TransactionsPool} {gone : List MempoolTransaction}

theorem start (index : Indexed feeRate tp₀) : Removed feeRate tp₀ [] tp₀ := by
  constructor
  · simpa using index
  · simp
  · rfl

theorem remove (removed : Removed feeRate tp₀ gone tp) {tx : MempoolTransaction}
    (holds : Holds tp tx) : ∃ tp', (tp.removeFromUTXOSet tx).removeFromPool feeRate tx =
    (true, tp') ∧ Removed feeRate tp₀ (gone ++ [tx]) tp' := by
  have ownParents : tp.parentsOf tx = tp₀.parentsOf tx := by
    rw [TransactionsPool.parentsOf, removed.parents]
    rfl
  rcases removeFromPool_indexed removed.indexed holds ownParents with
    ⟨tp', isGone, index, isHeld, sameParents⟩
  refine ⟨tp', isGone, ?_, ?_, sameParents.trans removed.parents⟩
  · simpa using index
  · funext other
    rw [isHeld, removed.holds]
    simp [and_assoc]

/-- No transaction in the pool spends from one that is gone. -/
theorem complete (removed : Removed feeRate tp₀ gone tp) (index : Indexed feeRate tp₀)
    (closed : ∀ parent ∈ gone, ∀ child ∈ chainedTo tp₀.chainedTransactionsByParentID
    parent.transactionID, child ∈ gone) : Indexed feeRate tp := by
  have sameParents : tp.parentsOf = tp₀.parentsOf := by
    funext child
    rw [TransactionsPool.parentsOf, removed.parents]
    rfl
  rw [Indexed, sameParents]
  refine removed.indexed.dropParents (fun _ _ _ _ => rfl) ?_
  intro child holds _ isGone
  rw [removed.holds] at holds
  rcases mem_map.mp isGone with ⟨parent, mem, rfl⟩
  by_contra link
  rw [← ne_eq, Option.ne_none_iff_isSome] at link
  exact holds.2 (closed parent mem child ((index.chained.mem_iff _ child).mpr ⟨holds.1, id, link⟩))

end Removed

/-! ## Removing the first of them -/

section Unparent

variable (tp : TransactionsPool) (id : DomainTransactionID) (redeemers : List MempoolTransaction)

theorem unparentRedeemers_eq : tp.unparentRedeemers id redeemers = { tp with
      parentTransactionsInPool :=
        (tp.unparentRedeemers id redeemers).parentTransactionsInPool } := by
  induction redeemers generalizing tp with
  | nil => rfl
  | cons redeemer rest ih => exact ih (tp.removeParentTransactionInPool redeemer id)

theorem parentsOf_removeParent (redeemer child : MempoolTransaction) :
    (tp.removeParentTransactionInPool redeemer id).parentsOf child =
      if child.address = redeemer.address then (tp.parentsOf child).erase id
      else tp.parentsOf child := by
  rw [TransactionsPool.parentsOf, TransactionsPool.removeParentTransactionInPool, insert_ite]
  split_ifs with sameAddr
  · rw [TransactionsPool.parentsOf, TransactionsPool.parentsOf, sameAddr]
    rfl
  · rfl

theorem parentsOf_unparentRedeemers (child : MempoolTransaction)
    (isIn : ∀ redeemer ∈ redeemers, child.address ≠ redeemer.address) :
    (tp.unparentRedeemers id redeemers).parentsOf child = tp.parentsOf child := by
  induction redeemers generalizing tp with
  | nil => rfl
  | cons redeemer rest ih =>
    rw [forall_mem_cons] at isIn
    rw [TransactionsPool.unparentRedeemers, foldl_cons]
    rw [← TransactionsPool.unparentRedeemers, ih _ isIn.2, parentsOf_removeParent, if_neg isIn.1]

theorem lookup_parentsOf_unparentRedeemers (child : MempoolTransaction)
    (owner : DomainTransactionID) :
    ((tp.unparentRedeemers id redeemers).parentsOf child).lookup owner =
      if owner = id ∧ ∃ redeemer ∈ redeemers, child.address = redeemer.address then none
      else (tp.parentsOf child).lookup owner := by
  induction redeemers generalizing tp with
  | nil => simp [TransactionsPool.unparentRedeemers]
  | cons redeemer rest ih =>
    rw [TransactionsPool.unparentRedeemers, foldl_cons,
      ← TransactionsPool.unparentRedeemers, ih, parentsOf_removeParent]
    by_cases isID : owner = id
    · by_cases sameAddr : child.address = redeemer.address
      · simp [isID, sameAddr, erase_ite]
      · simp [sameAddr]
    · by_cases sameAddr : child.address = redeemer.address
      · rw [if_pos sameAddr]
        simp [isID]
      · simp [sameAddr]

end Unparent

theorem removeAlone_indexed (index : Indexed feeRate tp) (holds : Holds tp root)
    {redeemers : List MempoolTransaction} (all : AllRedeemers tp root redeemers) : ∃ tp',
    ((tp.unparentRedeemers root.transactionID redeemers).removeFromUTXOSet root).removeFromPool
    feeRate root = (true, tp') ∧ Indexed feeRate tp' ∧ Holds tp' = fun other => Holds tp other ∧
    other ≠ root := by
  have isIn : ∀ redeemer ∈ redeemers, root.address ≠ redeemer.address := by
    intro redeemer mem sameAddr
    have sameID := congrArg transactionID
      (index.distinct root redeemer holds (all.held redeemer mem) sameAddr)
    have distinct := all.distinct
    rw [map_cons, nodup_cons] at distinct
    exact distinct.1 (sameID ▸ mem_map_of_mem mem)
  have ownParents := parentsOf_unparentRedeemers tp root.transactionID redeemers root isIn
  have isLookup := lookup_parentsOf_unparentRedeemers tp root.transactionID redeemers
  have isPool := unparentRedeemers_eq tp root.transactionID redeemers
  generalize tp.unparentRedeemers root.transactionID redeemers = tp₁ at *
  have indexed₁ : PoolIndexed feeRate (fun _ => False) tp.parentsOf tp₁ := by
    rw [isPool]
    exact { index with }
  have sameHolds : Holds tp₁ = Holds tp := by rw [isPool]
  rcases removeFromPool_indexed indexed₁ (sameHolds ▸ holds) ownParents with
    ⟨tp', isRemoved, removedIndexed, isHeld, sameParents⟩
  have isParents : tp'.parentsOf = tp₁.parentsOf := by
    funext child
    rw [TransactionsPool.parentsOf, sameParents]
    rfl
  rw [sameHolds] at isHeld
  refine ⟨tp', isRemoved, ?_, isHeld⟩
  rw [Indexed, isParents]
  refine removedIndexed.dropParents ?_ ?_
  · intro child childHolds owner notGone
    rw [false_or] at notGone
    rw [isLookup, if_neg fun both => notGone both.1]
  · intro child childHolds owner isGone
    rw [isHeld] at childHolds
    rw [false_or] at isGone
    rw [isLookup]
    by_contra link
    split_ifs at link with isRedeemer
    · exact link rfl
    rw [← ne_eq, Option.ne_none_iff_isSome] at link
    have isChild := (index.chained.mem_iff owner child).mpr ⟨childHolds.1, id, link⟩
    rw [isGone] at isChild
    have mem := all.closed root (.head _) child isChild
    exact isRedeemer ⟨isGone, child, (mem_cons.mp mem).resolve_left childHolds.2, rfl⟩

end Htnd.MiningManager.Redeemers
