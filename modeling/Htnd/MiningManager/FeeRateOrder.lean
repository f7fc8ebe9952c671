import Htnd.MiningManager.PoolLists

/-!
# Transactions ordered by fee rate

`TransactionsOrderedByFeeRate` with the errors of its calls.  Entries with one
ID have one fee and one mass while they are listed, so the order by fee rate
and ID agrees with the test for a found entry, whatever the fee rates are and
however many entries share one.
-/

namespace Htnd.MiningManager.FeeRateOrder

open Lib.Slices State PoolLists List

/-- The errors of the calls on the list. -/
inductive OrderError where
  | notPopulated
  | notFound
  | outOfBounds

def removeAtIndex (slice : List MempoolTransaction) (index : Int) :
    Except OrderError (List MempoolTransaction) :=
  if index < 0 ∨ (slice.length : Int) - 1 < index then .error .outOfBounds
  else .ok (slice.eraseIdx index.toNat)

inductive Call where
  | push (transaction : MempoolTransaction)
  | remove (transaction : MempoolTransaction)
  | removeAtIndex (index : Int)

variable (feeRate : FeeRate)

/-- What a call returns; a call that fails leaves the list as it is. -/
def called (slice : List MempoolTransaction) : Call → Except OrderError (List MempoolTransaction)
  | .push transaction =>
    match push feeRate slice transaction with
    | some pushed => .ok pushed
    | none => .error .notPopulated
  | .remove transaction =>
    match findTransactionIndex feeRate slice transaction with
    | none => .error .notPopulated
    | some (index, wasFound) =>
      if wasFound then removeAtIndex slice index else .error .notFound
  | .removeAtIndex index => removeAtIndex slice index

/-- Fee and mass are positive, and those of the entries with the same ID. -/
def Steady (slice : List MempoolTransaction) (transaction : MempoolTransaction) : Prop :=
  Populated transaction.transaction ∧ ∀ entry ∈ slice, entry.transactionID =
    transaction.transactionID → entry.transaction.fee = transaction.transaction.fee ∧
    entry.transaction.mass = transaction.transaction.mass

def Allowed (slice : List MempoolTransaction) : Call → Prop
  | .push transaction | .remove transaction => Steady slice transaction
  | .removeAtIndex _ => True

/-- The lists that allowed calls lead to from the empty one. -/
inductive Reached : List MempoolTransaction → Prop
  | empty : Reached []
  | call {slice after : List MempoolTransaction} (call : Call) (reached : Reached slice)
    (allowed : Allowed slice call) (returns : called feeRate slice call = .ok after) : Reached after

/-- The order by fee rate and ID. -/
def Ordered (slice : List MempoolTransaction) : Prop :=
  slice.Pairwise fun first second => notBefore feeRate first second = true

section

variable {feeRate : FeeRate} {slice after : List MempoolTransaction} {tx : MempoolTransaction}

theorem ordered_of_removeAtIndex (ordered : Ordered feeRate slice)
    {index : Int} (returns : removeAtIndex slice index = .ok after) : Ordered feeRate after := by
  rw [removeAtIndex] at returns
  split_ifs at returns
  cases returns
  exact ordered.sublist (eraseIdx_sublist slice _)

theorem Reached.ordered (meets : Reached feeRate slice) : Ordered feeRate slice := by
  induction meets with
  | empty => exact Pairwise.nil
  | @call slice after call _ may returns ordered =>
    cases call with
    | push tx =>
      rw [called, push_of_populated may.1] at returns
      cases returns
      exact sorted_insert ordered (fun _ _ _ => notBefore_trans) (fun _ _ => notBefore_total)
    | remove tx =>
      rw [called, index_of_populated may.1] at returns
      dsimp only at returns
      split_ifs at returns
      exact ordered_of_removeAtIndex ordered returns
    | removeAtIndex index => exact ordered_of_removeAtIndex ordered returns

/-- The search for a listed transaction ends at an entry with its ID. -/
theorem found_of_listed (ordered : Ordered feeRate slice) (steady : Steady slice tx)
    {entry : MempoolTransaction} (mem : entry ∈ slice)
    (sameID : entry.transactionID = tx.transactionID) : ∃ found,
    slice[firstAtLeast (notBefore feeRate) slice tx]? = some found ∧ found.transactionID =
    tx.transactionID := by
  have same := steady.2 entry mem sameID
  have sameRate : entry.rate feeRate = tx.rate feeRate := by
    rw [MempoolTransaction.rate, same.1, same.2, MempoolTransaction.rate]
  have toEntry : notBefore feeRate tx entry = true :=
    notBefore_iff.mpr (.inr ⟨sameRate, le_of_eq (by rw [sameID])⟩)
  have fromEntry : notBefore feeRate entry tx = true :=
    notBefore_iff.mpr (.inr ⟨sameRate.symm, le_of_eq (by rw [sameID])⟩)
  rcases getElem?_firstAtLeast ordered (fun _ _ _ => notBefore_trans) mem
    toEntry fromEntry with ⟨found, -, isAt, before, after⟩
  exact ⟨found, isAt, id_eq_of_notBefore after before⟩

end

/--
The list stays in order; a push keeps every entry; a removal takes out one
entry with the ID, and only reports that none is listed.
-/
theorem reached_ordered {slice : List MempoolTransaction} (reached : Reached feeRate slice) :
    Ordered feeRate slice ∧ ∀ transaction, Steady slice transaction →
      (∃ pushed, called feeRate slice (.push transaction) = .ok pushed ∧
        pushed.Perm (transaction :: slice)) ∧
      ((∃ entry ∈ slice, entry.transactionID = transaction.transactionID) →
        ∃ front entry back, slice = front ++ entry :: back ∧
          entry.transactionID = transaction.transactionID ∧
          called feeRate slice (.remove transaction) = .ok (front ++ back)) ∧
      ((∀ entry ∈ slice, entry.transactionID ≠ transaction.transactionID) →
        called feeRate slice (.remove transaction) = .error .notFound) := by
  have ordered := reached.ordered
  refine ⟨ordered, fun transaction steady => ⟨?_, ?_, ?_⟩⟩
  · rw [called, push_of_populated steady.1]
    exact ⟨_, rfl, perm_insert slice transaction _⟩
  · rintro ⟨entry, mem, sameID⟩
    rcases found_of_listed ordered steady mem sameID with ⟨found, isFound, foundID⟩
    rw [called, index_of_populated steady.1, isFound]
    generalize firstAtLeast (notBefore feeRate) slice transaction = index at isFound
    rcases List.getElem?_eq_some_iff.mp isFound with ⟨_, isAt⟩
    refine ⟨slice.take index, found, slice.drop (index + 1), ?_, foundID, ?_⟩
    · rw [← isAt, getElem_cons_drop, take_append_drop]
    · dsimp only
      rw [Option.map_some, foundID, if_pos (decide_eq_true rfl),
        removeAtIndex, if_neg (by omega), Int.toNat_natCast, eraseIdx_eq_take_drop_succ]
  · intro notListed
    rw [called, index_of_populated steady.1]
    dsimp only
    rw [if_neg]
    rw [decide_eq_true_eq, Option.map_eq_some_iff]
    rintro ⟨entry, isEntry, sameID⟩
    exact notListed entry (mem_of_getElem? isEntry) sameID

def transactionNumber (number : UInt8) : MempoolTransaction :=
  ⟨0, ⟨.filled number, [], 0, 1, 1, by decide, by decide⟩, false, 0⟩

/--
Transactions with one fee rate are in the order of their IDs, after a third one
was pushed and removed.
-/
theorem reached_ordered_equal_rates :
    let slice := [transactionNumber 1, transactionNumber 2]
    Ordered (fun _ _ => 0) slice ∧ (∃ front entry back, slice = front ++ entry :: back ∧
      entry.transactionID = (transactionNumber 2).transactionID ∧
      called (fun _ _ => 0) slice (.remove (transactionNumber 2)) = .ok (front ++ back)) ∧
      called (fun _ _ => 0) slice (.remove (transactionNumber 3)) = .error .notFound := by
  intro slice
  have steady : ∀ (numbers : List UInt8) (number : UInt8),
      Steady (numbers.map transactionNumber) (transactionNumber number) := by
    intro numbers number
    refine ⟨⟨by simp [transactionNumber], by simp [transactionNumber]⟩, fun entry isIn _ => ?_⟩
    rcases mem_map.mp isIn with ⟨_, -, rfl⟩
    exact ⟨rfl, rfl⟩
  have one : Reached (fun _ _ => 0) [transactionNumber 2] :=
    .call (.push (transactionNumber 2)) .empty (steady [] 2) rfl
  have two := one.call (.push (transactionNumber 3)) (steady [2] 3) rfl
  have three := two.call (.push (transactionNumber 1)) (steady [2, 3] 1) rfl
  have reached := three.call (.remove (transactionNumber 3)) (steady [1, 2, 3] 3) rfl
  rcases reached_ordered _ reached with ⟨ordered, calls⟩
  exact ⟨ordered, (calls _ (steady [1, 2] 2)).2.1 ⟨_, .tail _ (.head _), rfl⟩,
    (calls _ (steady [1, 2] 3)).2.2 (by decide)⟩

end Htnd.MiningManager.FeeRateOrder
