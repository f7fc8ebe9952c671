import Htnd.Lib.Calls
import Htnd.MiningManager.Mempool
import Htnd.MiningManager.PoolLists

/-!
# The index of the orphan pool

The index by outpoints finds exactly the orphans that spend them.  Removing an
orphan keeps this; so it never misses an input in the index, and what it calls
for the redeemers always finds fewer orphans.
-/

namespace Htnd.MiningManager.OrphanIndex

open Lib.RangeLoops Utxo.Entry State PoolLists

/-- The orphan pool holds the orphan. -/
abbrev HoldsOrphan (op : OrphansPool) (orphan : OrphanTransaction) : Prop :=
  HeldIn op.allOrphans OrphanTransaction.transactionID orphan

structure OrphansIndexed (op : OrphansPool) : Prop where
  ids : ∀ id orphan, op.allOrphans.lookup id = some orphan → orphan.transactionID = id
  populated : ∀ orphan, HoldsOrphan op orphan → Populated orphan.transaction
  distinct : ∀ orphan, HoldsOrphan op orphan → orphan.transaction.inputs.Nodup
  spends : Indexes op.orphansByPreviousOutpoint (HoldsOrphan op)
    fun orphan => orphan.transaction.inputs

variable {op : OrphansPool} {orphan : OrphanTransaction}

theorem OrphansIndexed.holds_of_lookup (index : OrphansIndexed op) {id : DomainTransactionID}
    (found : op.allOrphans.lookup id = some orphan) : HoldsOrphan op orphan := by
  change op.allOrphans.lookup orphan.transactionID = _
  rw [index.ids id orphan found, found]

/-! ## Adding and removing one orphan -/

theorem addOrphan_indexed (index : OrphansIndexed op)
    (isNew : op.allOrphans.lookup orphan.transactionID = none)
    (free : ∀ point ∈ orphan.transaction.inputs, op.orphansByPreviousOutpoint.lookup point = none)
    (filled : Populated orphan.transaction) (nodup : orphan.transaction.inputs.Nodup) :
    OrphansIndexed (op.addOrphan orphan) := by
  have isHeld : HoldsOrphan (op.addOrphan orphan) =
      fun other => other = orphan ∨ HoldsOrphan op other := heldIn_insert isNew
  constructor
  · intro id other found
    change (op.allOrphans.insert orphan.transactionID orphan).lookup id = _ at found
    rw [insert_ite] at found
    split_ifs at found with isID
    · cases found
      exact isID.symm
    · exact index.ids id other found
  · rw [isHeld]
    rintro other (rfl | held)
    · exact filled
    · exact index.populated other held
  · rw [isHeld]
    rintro other (rfl | held)
    · exact nodup
    · exact index.distinct other held
  · rw [isHeld]
    exact index.spends.insertEach free

theorem forgetInputs_eq {inputs : List DomainOutpoint} (nodup : inputs.Nodup)
    (found : ∀ point ∈ inputs,
      (op.orphansByPreviousOutpoint.lookup point).isSome = true) :
    OrphansPool.forgetInputs inputs op = (true, { op with
      orphansByPreviousOutpoint := inputs.foldl (fun spenders point => spenders.erase point)
        op.orphansByPreviousOutpoint }) := by
  induction inputs generalizing op with
  | nil => rfl
  | cons point rest ih =>
    rw [List.nodup_cons] at nodup
    rw [List.forall_mem_cons] at found
    rcases Option.isSome_iff_exists.mp found.1 with ⟨_, isFound⟩
    rw [OrphansPool.forgetInputs, isFound]
    refine ih nodup.2 ?_
    intro other mem
    rw [AList.lookup_erase_ne]
    · exact found.2 other mem
    · rintro rfl
      exact nodup.1 mem

theorem forgetOrphan_indexed (index : OrphansIndexed op)
    (held : HoldsOrphan op orphan) :
    ∃ op', OrphansPool.forgetInputs orphan.transaction.inputs { op with
        allOrphans := op.allOrphans.erase orphan.transactionID } = (true, op') ∧
      OrphansIndexed op' ∧
      op'.allOrphans = op.allOrphans.erase orphan.transactionID := by
  have isForgotten := @forgetInputs_eq
    { op with allOrphans := op.allOrphans.erase orphan.transactionID }
    orphan.transaction.inputs (index.distinct orphan held) (by
      intro point mem
      rw [(index.spends point orphan).mpr ⟨held, mem⟩]
      rfl)
  refine ⟨_, isForgotten, ?_, rfl⟩
  generalize isPool : ({ op with
    allOrphans := op.allOrphans.erase orphan.transactionID
    orphansByPreviousOutpoint := orphan.transaction.inputs.foldl
      (fun spenders point => spenders.erase point)
      op.orphansByPreviousOutpoint } : OrphansPool) = op'
  have isAll : op'.allOrphans = op.allOrphans.erase orphan.transactionID := by rw [← isPool]
  have isHeld : HoldsOrphan op' = fun other => HoldsOrphan op other ∧ other ≠ orphan := by
    change HeldIn op'.allOrphans _ = _
    rw [isAll]
    exact heldIn_erase held
  constructor
  · intro id other found
    rw [isAll, erase_ite] at found
    split_ifs at found
    exact index.ids id other found
  · rw [isHeld]
    exact fun other otherHeld => index.populated other otherHeld.1
  · rw [isHeld]
    exact fun other otherHeld => index.distinct other otherHeld.1
  · rw [isHeld, ← isPool]
    exact index.spends.eraseEach held

end Htnd.MiningManager.OrphanIndex
