import Htnd.MiningManager.OrphanIndex
import Htnd.MiningManager.Redeemers

/-!
# Removal keeps the indexes

A mempool is consistent if both pools are indexed and no transaction is in
both.  Removing transactions and orphans keeps this and adds nothing to either
pool.  A removal that has begun does not fail.
-/

namespace Htnd.MiningManager.Removal

open Lib.Calls Lib.RangeLoops Utxo.Entry State Mempool PoolIndex OrphanIndex
open Redeemers

variable {fail : Mempool → Prop}

/-- A condition that is known not to hold fails no call. -/
theorem failIf_ensures {test : Prop} [Decidable test] {error : MempoolError} {pre : Mempool → Prop}
    (holds : ¬ test) : Ensures pre (failIf test error) (fun _ => pre) fail := by
  rw [failIf, if_neg holds]
  exact .pure fun _ => id

/-! ## Removing orphans -/

/-- The orphans that are left when some have been removed. -/
structure OrphansLeft (pool : TransactionsPool) (orphans :
    FiniteMap DomainTransactionID OrphanTransaction) (count : Nat) (mp : Mempool) : Prop where
  pool : mp.pool = pool
  indexed : OrphansIndexed mp.orphans
  submap : Submap mp.orphans.allOrphans orphans
  length_le : mp.orphans.allOrphans.entries.length ≤ count

theorem removeWith_ensures {inv : Mempool → Prop} {removeOrphan : DomainTransactionID →
    MempoolM Unit} (each : ∀ orphanID, Ensures inv (removeOrphan orphanID) (fun _ => inv) fail)
    (outpoints : List DomainOutpoint) : Ensures inv (removeRedeemersWith removeOrphan outpoints)
    (fun _ => inv) fail := by
  induction outpoints with
  | nil => exact .pure fun _ => id
  | cons point rest ih =>
    refine .bind ?_ fun _ => ih
    refine .get fun mp holds => ?_
    cases mp.orphans.orphansByPreviousOutpoint.lookup point with
    | none => exact .pure fun _ isState => isState ▸ holds
    | some orphan => exact (each orphan.transactionID).of_state holds

section Orphans

variable {pool : TransactionsPool}
  {orphans : FiniteMap DomainTransactionID OrphanTransaction} {count : Nat}

/-- The orphan is removed, and what follows finds fewer orphans. -/
theorem forgetOrphan_ensures {removeRedeemersOf : Transaction → MempoolM Unit}
    (orphanID : DomainTransactionID) (users : ∀ tx orphans count', count' < count →
    Ensures (OrphansLeft pool orphans count') (removeRedeemersOf tx)
    (fun _ => OrphansLeft pool orphans count') fun _ => False) :
    Ensures (OrphansLeft pool orphans count) (forgetOrphan removeRedeemersOf orphanID)
    (fun _ mp => OrphansLeft pool orphans count mp ∧ mp.orphans.allOrphans.lookup orphanID = none)
    fun _ => False := by
  refine .get fun mp left => ?_
  cases found : mp.orphans.allOrphans.lookup orphanID with
  | none =>
    rintro _ rfl
    exact ⟨left, found⟩
  | some orphan =>
    rcases forgetOrphan_indexed left.indexed (left.indexed.holds_of_lookup found) with
      ⟨op', isForgotten, index, isAll⟩
    rw [left.indexed.ids orphanID orphan found] at isForgotten isAll
    dsimp only
    rw [isForgotten]
    refine .set (.bind (failIf_ensures Bool.noConfusion) fun _ => ?_)
    have fewer := length_erase_lt found
    rw [← isAll] at fewer
    have rest := users orphan.transaction op'.allOrphans _ (lt_of_lt_of_le fewer left.length_le)
    have start : OrphansLeft pool op'.allOrphans
        op'.allOrphans.entries.length { mp with orphans := op' } :=
      ⟨left.pool, index, .refl _, le_rfl⟩
    refine (rest.of_state start).post_imp ?_
    rintro - _ left'
    refine ⟨⟨left'.pool, left'.indexed, ?_, ?_⟩, ?_⟩
    · exact (left'.submap.trans (isAll ▸ Submap.erase _ orphanID)).trans left.submap
    · exact le_trans left'.length_le (le_trans (le_of_lt fewer) left.length_le)
    · exact left'.submap.lookup_none (isAll ▸ AList.lookup_erase orphanID _)

/-- As many orphans as the depth are removed without failing. -/
theorem removeOrphanToDepth_ensures (redeeming : Bool) (depth : Nat)
    (orphanID : DomainTransactionID) (enough : count ≤ depth) :
    Ensures (OrphansLeft pool orphans count) (removeOrphanToDepth redeeming depth orphanID)
    (fun _ mp => OrphansLeft pool orphans count mp ∧ mp.orphans.allOrphans.lookup orphanID = none)
    fun _ => False := by
  induction depth generalizing orphanID orphans count with
  | zero =>
    refine forgetOrphan_ensures orphanID fun tx orphans count' fewer => ?_
    omega
  | succ depth ih =>
    refine forgetOrphan_ensures orphanID fun tx orphans count' fewer => ?_
    cases redeeming with
    | false => exact .pure fun _ => id
    | true =>
      refine removeWith_ensures (fun redeemerID => ?_) _
      exact (ih redeemerID (by omega)).post_imp fun _ _ => And.left

theorem removeOrphan_ensures (orphanID : DomainTransactionID) (redeeming : Bool) :
    Ensures (OrphansLeft pool orphans count) (removeOrphan orphanID redeeming)
    (fun _ mp => OrphansLeft pool orphans count mp ∧ mp.orphans.allOrphans.lookup orphanID = none)
    fun _ => False := by
  refine .get fun mp left => ?_
  have removes := @removeOrphanToDepth_ensures pool orphans _
    redeeming mp.orphans.allOrphans.entries.length orphanID le_rfl
  refine (removes.of_state ⟨left.pool, left.indexed, left.submap, le_rfl⟩).post_imp ?_
  rintro - _ ⟨left', gone⟩
  exact ⟨⟨left'.pool, left'.indexed, left'.submap, le_trans left'.length_le left.length_le⟩, gone⟩

theorem removeRedeemersOf_ensures (tx : Transaction) : Ensures (OrphansLeft pool orphans count)
    (removeRedeemersOf tx) (fun _ => OrphansLeft pool orphans count) fun _ => False := by
  refine removeWith_ensures (fun orphanID => ?_) _
  exact (removeOrphan_ensures orphanID true).post_imp fun _ _ => And.left

end Orphans

/-! ## Removing transactions -/

/-- The pools are indexed, and no transaction is in both. -/
structure Consistent (feeRate : FeeRate) (mp : Mempool) : Prop where
  pool : Indexed feeRate mp.pool
  orphans : OrphansIndexed mp.orphans
  apart : ∀ id, mp.pool.allTransactions.lookup id = none ∨ mp.orphans.allOrphans.lookup id = none

/-- A consistent mempool with nothing that was not there before. -/
structure Shrunk (feeRate : FeeRate) (before mp : Mempool) : Prop where
  consistent : Consistent feeRate mp
  pool : Submap mp.pool.allTransactions before.pool.allTransactions
  orphans : Submap mp.orphans.allOrphans before.orphans.allOrphans

variable {tp tp' : TransactionsPool}

section Shrunk

variable {feeRate : FeeRate} {before mp mp' : Mempool}

theorem Shrunk.refl (sound : Consistent feeRate mp) : Shrunk feeRate mp mp :=
  ⟨sound, .refl _, .refl _⟩

theorem Shrunk.trans (shrunk : Shrunk feeRate before mp)
    (shrunk' : Shrunk feeRate mp mp') : Shrunk feeRate before mp' :=
  ⟨shrunk'.consistent, shrunk'.pool.trans shrunk.pool, shrunk'.orphans.trans shrunk.orphans⟩

theorem Shrunk.orphansLeft (shrunk : Shrunk feeRate before mp) :
    OrphansLeft mp.pool mp.orphans.allOrphans mp.orphans.allOrphans.entries.length mp :=
  ⟨rfl, shrunk.consistent.orphans, .refl _, le_rfl⟩

/-- Fewer transactions and fewer orphans. -/
theorem Shrunk.shrink (shrunk : Shrunk feeRate before mp) {count : Nat}
    (left : OrphansLeft tp mp.orphans.allOrphans count mp') (index : Indexed feeRate tp)
    (submap : Submap tp.allTransactions mp.pool.allTransactions) : Shrunk feeRate before mp' := by
  rcases left with ⟨rfl, orphansIndexed, orphansSubmap, -⟩
  refine ⟨⟨index, orphansIndexed, ?_⟩, submap.trans shrunk.pool, orphansSubmap.trans shrunk.orphans⟩
  intro id
  rcases shrunk.consistent.apart id with notInPool | notOrphan
  · exact .inl (submap.lookup_none notInPool)
  · exact .inr (orphansSubmap.lookup_none notOrphan)

theorem removeOrphan_shrinks (orphanID : DomainTransactionID) (redeeming : Bool) :
    Ensures (Shrunk feeRate before) (removeOrphan orphanID redeeming)
    (fun _ mp => Shrunk feeRate before mp ∧ mp.orphans.allOrphans.lookup orphanID = none) fun _ =>
    False := by
  refine .by_state fun mp shrunk => ?_
  refine ((removeOrphan_ensures orphanID redeeming).of_state shrunk.orphansLeft).post_imp ?_
  rintro - _ ⟨left, gone⟩
  exact ⟨shrunk.shrink left shrunk.consistent.pool (.refl _), gone⟩

/-- The pool holds a part of what it held, without the removed one. -/
theorem submap_of_holds {Kept : MempoolTransaction → Prop}
    (index : Indexed feeRate tp') (isHeld : Holds tp' = fun other => Holds tp other ∧ Kept other)
    {tx : MempoolTransaction} (holds : Holds tp tx) (gone : ¬ Kept tx) :
    Submap tp'.allTransactions tp.allTransactions ∧ tp'.allTransactions.lookup tx.transactionID =
    none := by
  have holdsBoth (id : DomainTransactionID) (other : MempoolTransaction)
      (found : tp'.allTransactions.lookup id = some other) :
      other.transactionID = id ∧ Holds tp other ∧ Kept other := by
    have otherHolds := index.holds_of_lookup found
    rw [isHeld] at otherHolds
    exact ⟨index.ids id other found, otherHolds⟩
  constructor
  · intro id other found
    rcases holdsBoth id other found with ⟨rfl, otherHolds, -⟩
    exact otherHolds
  · cases found : tp'.allTransactions.lookup tx.transactionID with
    | none => rfl
    | some other =>
      rcases holdsBoth _ other found with ⟨sameID, otherHolds, isKept⟩
      exact absurd (holds.unique otherHolds sameID ▸ isKept) gone

end Shrunk

section Environment

variable {env : Environment} {before : Mempool}

theorem removeFromSets_ensures {orphans : FiniteMap DomainTransactionID OrphanTransaction}
    {count : Nat} {tx : MempoolTransaction} (redeeming : Bool)
    (isGone : (tp.removeFromUTXOSet tx).removeFromPool env.feeRate tx = (true, tp')) :
    Ensures (OrphansLeft tp orphans count) (removeTransactionFromSets env tx redeeming)
    (fun _ => OrphansLeft tp' orphans count) fun _ => False := by
  refine .get fun mp left => ?_
  rw [left.pool, isGone]
  refine .set (.bind (failIf_ensures Bool.noConfusion) fun _ => ?_)
  have start : OrphansLeft tp' orphans count { mp with pool := tp' } :=
    ⟨rfl, left.indexed, left.submap, left.length_le⟩
  cases redeeming with
  | false =>
    rintro _ rfl
    exact start
  | true => exact (removeRedeemersOf_ensures _).of_state start

/-- Transactions that are held are removed one by one. -/
theorem removeAllFromSets_ensures {tp₀ : TransactionsPool}
    {orphans : FiniteMap DomainTransactionID OrphanTransaction} {count : Nat} (redeeming : Bool)
    (txs gone : List MempoolTransaction) (held : ∀ tx ∈ txs, Holds tp₀ tx)
    (nodup : (gone ++ txs).Nodup) : Ensures (fun mp => Removed env.feeRate tp₀ gone mp.pool ∧
    OrphansLeft mp.pool orphans count mp) (removeAllFromSets env redeeming txs)
    (fun _ mp => Removed env.feeRate tp₀ (gone ++ txs) mp.pool ∧
    OrphansLeft mp.pool orphans count mp) fun _ => False := by
  induction txs generalizing gone with
  | nil =>
    refine .pure fun mp both => ?_
    rw [List.append_nil]
    exact both
  | cons tx rest ih =>
    rw [List.forall_mem_cons] at held
    rw [List.append_cons] at nodup ⊢
    refine .bind ?_ fun _ => ih (gone ++ [tx]) held.2 nodup
    refine .by_state fun mp both => ?_
    have notGone : tx ∉ gone := by
      intro isGone
      rw [List.append_assoc, List.nodup_append] at nodup
      exact nodup.2.2 tx isGone tx (.head _) rfl
    have holds : Holds mp.pool tx := by
      rw [both.1.holds]
      exact ⟨held.1, notGone⟩
    rcases both.1.remove holds with ⟨_, isRemoved, removed⟩
    refine ((removeFromSets_ensures redeeming isRemoved).of_state both.2).post_imp ?_
    rintro - _ left
    rw [left.pool]
    exact ⟨removed, left⟩

section Redeemers

variable {mp : Mempool} {tx : MempoolTransaction}
  {users : List MempoolTransaction} (shrunk : Shrunk env.feeRate before mp)
  (holds : Holds mp.pool tx) (all : AllRedeemers mp.pool tx users)

include shrunk holds all

/-- The end of `removeTransaction` with the redeemers. -/
theorem removeAll_shrinks : Ensures (fun state => state = mp) (do
        removeAllFromSets env true (tx :: users)
        removeRedeemersOf tx.transaction)
      (fun _ mp => Shrunk env.feeRate before mp ∧
        mp.pool.allTransactions.lookup tx.transactionID = none)
      fun _ => False := by
  have index := shrunk.consistent.pool
  have removes := @removeAllFromSets_ensures env mp.pool
    mp.orphans.allOrphans mp.orphans.allOrphans.entries.length true (tx :: users) []
    (List.forall_mem_cons.mpr ⟨holds, all.held⟩) (all.distinct.of_map _)
  refine .bind (removes.of_state ⟨Removed.start index, shrunk.orphansLeft⟩) fun _ => ?_
  refine .by_state fun _ both => ?_
  refine ((removeRedeemersOf_ensures _).of_state both.2).post_imp ?_
  rintro - _ left
  have complete := both.1.complete index all.closed
  rcases submap_of_holds complete both.1.holds holds (not_not_intro (.head _)) with ⟨submap, gone⟩
  refine ⟨shrunk.shrink left complete submap, ?_⟩
  rw [left.pool]
  exact gone

/-- The end of `removeTransaction` without the redeemers. -/
theorem removeAlone_shrinks : Ensures (fun state => state = mp) (do
        set { mp with pool := mp.pool.unparentRedeemers tx.transactionID users }
        removeAllFromSets env false [tx])
      (fun _ mp => Shrunk env.feeRate before mp ∧
        mp.pool.allTransactions.lookup tx.transactionID = none)
      fun _ => False := by
  rcases removeAlone_indexed shrunk.consistent.pool holds all with ⟨_, isGone, index, isHeld⟩
  have start : OrphansLeft (mp.pool.unparentRedeemers tx.transactionID users)
      mp.orphans.allOrphans mp.orphans.allOrphans.entries.length
      { mp with pool := mp.pool.unparentRedeemers tx.transactionID users } :=
    ⟨rfl, shrunk.consistent.orphans, .refl _, le_rfl⟩
  refine .set (.bind ((removeFromSets_ensures false isGone).of_state start) fun _ => ?_)
  refine .pure fun _ left => ?_
  rcases submap_of_holds index isHeld holds (not_not_intro rfl) with ⟨submap, gone⟩
  refine ⟨shrunk.shrink left index submap, ?_⟩
  rw [left.pool]
  exact gone

end Redeemers

/-- The transaction is gone, and neither pool has anything new. -/
theorem removeTransaction_shrinks (transactionID : DomainTransactionID) (redeeming : Bool) :
    Ensures (Shrunk env.feeRate before) (removeTransaction env transactionID redeeming)
    (fun _ mp => Shrunk env.feeRate before mp ∧ mp.pool.allTransactions.lookup transactionID = none)
    (Shrunk env.feeRate before) := by
  refine .get fun mp shrunk => ?_
  by_cases isOrphan : (mp.orphans.allOrphans.lookup transactionID).isSome = true
  · rw [if_pos isOrphan]
    have notInPool := (shrunk.consistent.apart transactionID).resolve_right
      (Option.isSome_iff_ne_none.mp isOrphan)
    refine (((removeOrphan_ensures transactionID redeeming).of_state
      shrunk.orphansLeft).post_imp ?_).of_never
    rintro - _ ⟨left, -⟩
    refine ⟨shrunk.shrink left shrunk.consistent.pool (.refl _), ?_⟩
    rw [left.pool]
    exact notInPool
  · rw [if_neg isOrphan]
    cases found : mp.pool.allTransactions.lookup transactionID with
    | none =>
      rintro _ rfl
      exact ⟨shrunk, found⟩
    | some tx =>
      have index := shrunk.consistent.pool
      have holds := index.holds_of_lookup found
      have isID := index.ids transactionID tx found
      subst isID
      dsimp only
      cases isResult : mp.pool.getRedeemers env.rounds tx with
      | none =>
        rintro _ rfl
        exact shrunk
      | some users =>
        have all := getRedeemers_all index holds isResult
        cases redeeming with
        | true => exact (removeAll_shrinks shrunk holds all).of_never
        | false => exact (removeAlone_shrinks shrunk holds all).of_never

end Environment

end Htnd.MiningManager.Removal
