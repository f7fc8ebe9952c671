import Htnd.Lib.Fallible
import Htnd.UtxoIndex.Coins

/-!
# What a commit does to the coins

The two loops of a commit remove and add coins.  Along them, the deltas they
collect are the difference between the coins now and the coins at the start,
and nothing outside the bucket of the index is written.  The accounts written
after the loops are then those of the coins that are held.
-/

namespace Htnd.UtxoIndex.Commit

open Lib.RangeLoops Lib.Fallible Lib.LittleEndian Utxo.Entry Utxo.MutableDiff
open ConsensusState.UtxoKeys Keys Store Coins List Option

/-- Every script has fewer coins than an `int64` can count. -/
def CountsFit (virtual : UTXOCollection) : Prop := ∀ script, countOf virtual script < 2 ^ 63

/-- The script a change is staged for. -/
def scriptOf (change : StagedChange) : ScriptPublicKey := newScriptPublicKeyFromString change.key

theorem keyOf_eq (change : StagedChange) :
    keyOf change = coinKey (scriptOf change) change.outpoint :=
  rfl

/-- The delta collected for a script. -/
def deltaOf (changes : Changes) (script : ScriptPublicKey) : Int :=
  (changes.countDeltas.lookup (stringOf script)).getD 0

theorem getD_addToCount (deltas : FiniteMap ScriptPublicKeyString Int) (key : ScriptPublicKeyString)
    (change : Int) (asked : ScriptPublicKey) : ((addToCount deltas key change).lookup
    (stringOf asked)).getD 0 = (deltas.lookup (stringOf asked)).getD 0 +
        if newScriptPublicKeyFromString key = asked then change else 0 := by
  rw [addToCount, insert_ite]
  by_cases isKey : newScriptPublicKeyFromString key = asked
  · have isString : stringOf asked = key := by
      rw [← isKey, stringOf_fromString]
    rw [if_pos isString, if_pos isKey, getD_some, isString]
  · have notString : stringOf asked ≠ key := by
      rintro rfl
      exact isKey (fromString_stringOf asked)
    rw [if_neg notString, if_neg isKey, Int.add_zero]

/--
The state of the loops: the database holds the present coins, and the deltas
lead from the accounts at the start to those of the present coins.
-/
structure Pending (coins : CoinSet) (base : Database)
    (start virtual : UTXOCollection) (changes : Changes) : Prop where
  holds : Holds changes.database virtual
  within : Within virtual coins
  outside : ∀ key, Outside key → changes.database.lookup key = base.lookup key
  count : ∀ script, (countOf virtual script : Int) = countOf start script + deltaOf changes script
  supply : (changes.toAddSompiSupply.toNat + supplyOf start) % 2 ^ 64 =
    (changes.toRemoveSompiSupply.toNat + supplyOf virtual) % 2 ^ 64

variable {coins : CoinSet} {base db : Database} {start virtual : UTXOCollection} {changes : Changes}
  {change : StagedChange} {point : DomainOutpoint} {entry : UTXOEntry}

theorem Pending.init (holds : Holds base start) (within : Within start coins) :
    Pending coins base start start ⟨base, ∅, 0, 0⟩ where
  holds := holds
  within := within
  outside _ _ := rfl
  count _ := (Int.add_zero _).symm
  supply := rfl

/-- A key of a coin is not outside the bucket of the index. -/
theorem ne_coinKey {key : List UInt8} (beyond : Outside key)
    (script : ScriptPublicKey) (point : DomainOutpoint) : key ≠ coinKey script point := by
  rintro rfl
  exact beyond (bucket_prefix_key script point)

/-! ## Removing a coin -/

/-- The state after a stored coin is deleted. -/
def dropped (changes : Changes) (change : StagedChange) (amount : UInt64) :
    Changes :=
  { changes with
    database := changes.database.erase (keyOf change)
    countDeltas := addToCount changes.countDeltas change.key (-1)
    toRemoveSompiSupply := changes.toRemoveSompiSupply + amount }

theorem Pending.dropped (pending : Pending coins base start virtual changes)
    (differ : KeysDiffer coins) (held : virtual.lookup change.outpoint = some entry)
    (isScript : entry.scriptPublicKey = scriptOf change) :
    Pending coins base start (virtual.erase change.outpoint) (dropped changes change entry.amount)
    where
  holds := by
    have erased := pending.holds.erase differ pending.within held
    rwa [isScript] at erased
  within other entry' held' := by
    rw [erase_ite] at held'
    split_ifs at held'
    exact pending.within other entry' held'
  outside key outside := by
    rw [← pending.outside key outside]
    change (changes.database.erase _).lookup key = _
    rw [erase_ite, keyOf_eq, if_neg (ne_coinKey outside _ _)]
  count script := by
    have before := pending.count script
    have counted := countOf_erase held script
    have delta : deltaOf (Commit.dropped changes change entry.amount) script =
        deltaOf changes script +
          if scriptOf change = script then -1 else 0 :=
      getD_addToCount changes.countDeltas change.key (-1) script
    rw [delta]
    rw [isScript] at counted
    split_ifs at counted ⊢
    · omega
    · omega
  supply := by
    have before := pending.supply
    have summed := supplyOf_erase held
    change _ = ((changes.toRemoveSompiSupply + entry.amount).toNat + _) % _
    rw [UInt64.toNat_add]
    change (changes.toAddSompiSupply.toNat + _) % _ = _
    omega

/-- What a staged removal does to the coins. -/
def dropCoin (toAdd : StagedPairs) (virtual : UTXOCollection)
    (removal : StagedChange) : UTXOCollection :=
  if ((pairsOf toAdd removal.key).lookup removal.outpoint).isSome then virtual
  else
    match (virtual.lookup removal.outpoint).filter
        fun entry => entry.scriptPublicKey = scriptOf removal with
    | none => virtual
    | some _ => virtual.erase removal.outpoint

theorem commitRemoval_ok (pending : Pending coins base start virtual changes) (codec : Decoders)
    (differ : KeysDiffer coins) (toAdd : StagedPairs)
    (isCoin : coins change.outpoint (scriptOf change)) : ∃ next,
    commitRemoval codec toAdd changes change = .ok next ∧
    Pending coins base start (dropCoin toAdd virtual change) next := by
  rw [commitRemoval, dropCoin]
  split_ifs
  · exact ⟨changes, rfl, pending⟩
  rw [keyOf_eq, pending.holds.storedUTXOAmount_eq codec differ pending.within isCoin]
  cases found : (virtual.lookup change.outpoint).filter
      fun entry => entry.scriptPublicKey = scriptOf change with
  | none => exact ⟨changes, rfl, pending⟩
  | some entry =>
    rw [filter_eq_some_iff, decide_eq_true_eq] at found
    exact ⟨dropped changes change entry.amount, rfl, pending.dropped differ found.1 found.2⟩

/-- The loop over the staged removals. -/
theorem commitRemovals_ok {removals : List StagedChange}
    (pending : Pending coins base start virtual changes) (codec : Decoders)
    (differ : KeysDiffer coins) (toAdd : StagedPairs) (areCoins : ∀ undo ∈ removals,
    coins undo.outpoint (scriptOf undo)) : ∃ last, removals.foldlM (commitRemoval codec toAdd)
    changes = .ok last ∧ Pending coins base start (removals.foldl (dropCoin toAdd) virtual)
        last := by
  let holds : List StagedChange → Changes → Prop := fun remaining state => (∀ undo ∈ remaining,
    coins undo.outpoint (scriptOf undo)) ∧ ∃ there, Pending coins base start there state ∧
    remaining.foldl (dropCoin toAdd) there = removals.foldl (dropCoin toAdd) virtual
  have round : ∀ undo rest state, holds (undo :: rest) state →
      ∃ next, commitRemoval codec toAdd state undo = .ok next ∧ holds rest next := by
    rintro undo rest state ⟨areCoins, there, waits, isLast⟩
    rcases commitRemoval_ok waits codec differ toAdd
      (areCoins undo (.head _)) with ⟨next, stepped, isNext⟩
    exact ⟨next, stepped, fun other mem => areCoins other (.tail _ mem),
      dropCoin toAdd there undo, isNext, isLast⟩
  rcases foldlM_ok holds round ⟨areCoins, virtual, pending, rfl⟩ with
    ⟨last, looped, -, there, waits, isLast⟩
  exact ⟨last, looped, isLast ▸ waits⟩

/-! ## Adding a coin -/

theorem within_insert (within : Within virtual coins) (isCoin : coins point entry.scriptPublicKey) :
    Within (virtual.insert point entry) coins := by
  intro other otherEntry held
  rw [insert_ite] at held
  split_ifs at held with isIn
  · cases held
    rw [isIn]
    exact isCoin
  · exact within other otherEntry held

/-- The addition is staged under the script of its entry. -/
def Proper (addition : StagedChange) : Prop :=
  addition.key = stringOf addition.entry.scriptPublicKey

theorem Proper.scriptOf_eq (proper : Proper change) :
    scriptOf change = change.entry.scriptPublicKey := by
  rw [scriptOf, proper, fromString_stringOf]

/-- The state after a new coin is written. -/
def putNew (changes : Changes) (change : StagedChange) : Changes :=
  { changes with
    database := changes.database.insert (keyOf change) (serializeUTXOEntry change.entry)
    countDeltas := addToCount changes.countDeltas change.key 1
    toAddSompiSupply := changes.toAddSompiSupply + change.entry.amount }

/-- The state after a stored coin is overwritten. -/
def overwritten (changes : Changes) (change : StagedChange) (amount : UInt64) : Changes :=
  { changes with
    database := changes.database.insert (keyOf change) (serializeUTXOEntry change.entry)
    toAddSompiSupply := changes.toAddSompiSupply + change.entry.amount
    toRemoveSompiSupply := changes.toRemoveSompiSupply + amount }

section Put

variable (pending : Pending coins base start virtual changes) (differ : KeysDiffer coins)
  (proper : Proper change) (isCoin : coins change.outpoint change.entry.scriptPublicKey)

include pending

theorem lookup_put_outside {key : List UInt8} (beyond : Outside key) :
    (changes.database.insert (keyOf change) (serializeUTXOEntry change.entry)).lookup key =
    base.lookup key := by
  rw [← pending.outside key beyond, insert_ite, keyOf_eq, if_neg (ne_coinKey beyond _ _)]

include differ proper isCoin

theorem holds_put (sameScript : ∀ held, virtual.lookup change.outpoint = some held →
    held.scriptPublicKey = change.entry.scriptPublicKey) :
    Holds (changes.database.insert (keyOf change) (serializeUTXOEntry change.entry))
    (virtual.insert change.outpoint change.entry) := by
  rw [keyOf_eq, proper.scriptOf_eq]
  exact pending.holds.insert differ pending.within isCoin sameScript

theorem Pending.putNew (absent : virtual.lookup change.outpoint = none) :
    Pending coins base start (virtual.insert change.outpoint change.entry)
    (putNew changes change) where
  holds := holds_put pending differ proper isCoin (by
    intro _ isHeld
    rw [absent] at isHeld
    cases isHeld)
  within := within_insert pending.within isCoin
  outside key outside := lookup_put_outside pending outside
  count script := by
    have before := pending.count script
    have counted := countOf_insert_absent absent change.entry script
    have delta : deltaOf (Commit.putNew changes change) script = deltaOf changes script +
          if scriptOf change = script then 1 else 0 :=
      getD_addToCount changes.countDeltas change.key 1 script
    rw [delta, proper.scriptOf_eq]
    split_ifs at counted ⊢
    · omega
    · omega
  supply := by
    have before := pending.supply
    have summed := supplyOf_insert_absent absent change.entry
    change ((changes.toAddSompiSupply + change.entry.amount).toNat + _) % _ =
      (changes.toRemoveSompiSupply.toNat + _) % _
    rw [UInt64.toNat_add]
    omega

theorem Pending.overwritten {held : UTXOEntry} (isHeld : virtual.lookup change.outpoint = some held)
    (sameScript : held.scriptPublicKey = change.entry.scriptPublicKey) :
    Pending coins base start (virtual.insert change.outpoint change.entry)
    (overwritten changes change held.amount) where
  holds := holds_put pending differ proper isCoin (by
    intro _ isIn
    rw [isHeld] at isIn
    cases isIn
    exact sameScript)
  within := within_insert pending.within isCoin
  outside key outside := lookup_put_outside pending outside
  count script := by
    rw [countOf, Lib.MapTotals.total_insert, ← sameScript]
    exact (congrArg Nat.cast (countOf_erase isHeld script)).symm.trans (pending.count script)
  supply := by
    have before := pending.supply
    have summed := supplyOf_insert_held isHeld change.entry
    change ((changes.toAddSompiSupply + change.entry.amount).toNat + _) % _ =
      ((changes.toRemoveSompiSupply + held.amount).toNat + _) % _
    rw [UInt64.toNat_add, UInt64.toNat_add]
    omega

theorem commitAddition_ok (codec : Decoders)
    (sameScript : ∀ held, virtual.lookup change.outpoint = some held → held.scriptPublicKey =
    change.entry.scriptPublicKey) : ∃ next, commitAddition codec changes change = .ok next ∧
    Pending coins base start (virtual.insert change.outpoint change.entry) next := by
  have isScript := proper.scriptOf_eq
  rw [commitAddition, keyOf_eq, pending.holds.storedUTXOAmount_eq codec differ pending.within
    (isScript ▸ isCoin)]
  cases found : virtual.lookup change.outpoint with
  | none => exact ⟨putNew changes change, rfl, pending.putNew differ proper isCoin found⟩
  | some held =>
    have isSame := sameScript held found
    have passes : (some held).filter
        (fun entry => decide (entry.scriptPublicKey = scriptOf change)) = some held := by
      rw [filter_eq_some_iff, isScript]
      exact ⟨rfl, decide_eq_true isSame⟩
    rw [passes]
    exact ⟨overwritten changes change held.amount, rfl,
      pending.overwritten differ proper isCoin found isSame⟩

end Put

/-- What a staged addition does to the coins. -/
def putCoin (virtual : UTXOCollection) (addition : StagedChange) :
    UTXOCollection :=
  virtual.insert addition.outpoint addition.entry

/--
The loop over the staged additions, which are given by the entry for each
outpoint.
-/
theorem commitAdditions_ok {additions : List StagedChange} (entryFor : DomainOutpoint →
    Option UTXOEntry) (pending : Pending coins base start virtual changes) (codec : Decoders)
    (differ : KeysDiffer coins) (proper : ∀ added ∈ additions, Proper added)
    (areCoins : ∀ added ∈ additions, coins added.outpoint added.entry.scriptPublicKey)
    (isEntry : ∀ added ∈ additions, entryFor added.outpoint = some added.entry)
    (sameScript : ∀ added ∈ additions, ∀ held, virtual.lookup added.outpoint = some held →
    held.scriptPublicKey = added.entry.scriptPublicKey) : ∃ last,
    additions.foldlM (commitAddition codec) changes = .ok last ∧
    Pending coins base start (additions.foldl putCoin virtual) last := by
  let holds : List StagedChange → Changes → Prop := fun remaining state => remaining ⊆ additions ∧
    ∃ there, Pending coins base start there state ∧
    (∀ added ∈ remaining, ∀ held, there.lookup added.outpoint = some held → held.scriptPublicKey =
    added.entry.scriptPublicKey) ∧ remaining.foldl putCoin there = additions.foldl putCoin virtual
  have round : ∀ added rest state, holds (added :: rest) state →
      ∃ next, commitAddition codec state added = .ok next ∧ holds rest next := by
    rintro added rest state ⟨areAdditions, there, waits, sameScript, isLast⟩
    have isAddition := areAdditions (.head _)
    rcases commitAddition_ok waits differ (proper added isAddition)
      (areCoins added isAddition) codec (sameScript added (.head _)) with ⟨next, stepped, isNext⟩
    refine ⟨next, stepped, subset_of_cons_subset areAdditions,
      putCoin there added, isNext, ?_, isLast⟩
    intro other mem held isHeld
    rw [putCoin, insert_ite] at isHeld
    split_ifs at isHeld with sameOutpoint
    · cases isHeld
      have isIn := isEntry other (areAdditions (.tail _ mem))
      rw [sameOutpoint, isEntry added isAddition, some.injEq] at isIn
      rw [isIn]
    · exact sameScript other (.tail _ mem) held isHeld
  rcases foldlM_ok holds round ⟨List.Subset.refl _, virtual, pending, sameScript, rfl⟩ with
    ⟨last, looped, -, there, waits, -, isLast⟩
  exact ⟨last, looped, isLast ▸ waits⟩

/-! ## The accounts -/

theorem uint64_encode (count : Nat) (fits : count < 2 ^ 64) :
    deserializeUint64 (encode 8 count) = .ok (UInt64.ofNat count) := by
  rw [deserializeUint64, if_neg (by rw [length_encode]; decide), decode_encode 8 count fits]

theorem storedCount_eq {countKey : List UInt8} {count : Nat}
    (stored : db.lookup countKey = countBytes count) (fits : count < 2 ^ 64) :
    storedCount db countKey = .ok (UInt64.ofNat count) := by
  rw [storedCount, stored, countBytes]
  split_ifs with isZero
  · rw [isZero]
    rfl
  · exact uint64_encode count fits

/-- One count is brought up to date. -/
theorem applyUTXOCountDelta_ok {item : (_ : ScriptPublicKeyString) × Int} {before after : Nat}
    (stored : db.lookup (utxoCountKeyForScriptPublicKey (newScriptPublicKeyFromString item.1)) =
    countBytes before) (changed : (after : Int) = before + item.2) (fits : before < 2 ^ 63)
    (afterFits : after < 2 ^ 63) : ∃ next, applyUTXOCountDelta db item = .ok next ∧ ∀ key,
    next.lookup key = if key = utxoCountKeyForScriptPublicKey
    (newScriptPublicKeyFromString item.1) then countBytes after
        else db.lookup key := by
  rw [applyUTXOCountDelta]
  by_cases noDelta : item.2 = 0
  · rw [if_pos noDelta]
    refine ⟨db, rfl, ?_⟩
    intro key
    split_ifs with isKey
    · have same : after = before := by omega
      rw [isKey, stored, same]
    · rfl
  · have isCount := UInt64.toNat_ofNat_of_lt' (lt_trans fits (by decide))
    have newCount : ((before : Int) + item.2).bmod (2 ^ 64) = after := by
      rw [← changed]
      exact Int.bmod_eq_of_le (by omega) (by omega)
    rw [if_neg noDelta]
    dsimp only
    rw [ok_bind (storedCount_eq stored (by omega)), isCount, if_neg (by omega), newCount]
    split_ifs with isZero
    · refine ⟨_, rfl, ?_⟩
      intro key
      have zero : after = 0 := by omega
      rw [erase_ite, countBytes, if_pos zero]
    refine ⟨_, rfl, ?_⟩
    intro key
    have notZero : after ≠ 0 := by omega
    have isAfter : (UInt64.ofNat (after : Int).toNat).toNat = after := by
      exact UInt64.toNat_ofNat_of_lt' (lt_trans afterFits (by decide))
    rw [insert_ite, countBytes, if_neg notZero, serializeUint64, isAfter]

/-- All counts are brought up to date, and nothing else is written. -/
theorem applyUTXOCountDeltas_ok {virtual' : UTXOCollection}
    {deltas : FiniteMap ScriptPublicKeyString Int}
    (stored : ∀ script, db.lookup (utxoCountKeyForScriptPublicKey script) =
    countBytes (countOf virtual script)) (changed : ∀ script, (countOf virtual' script : Int) =
    countOf virtual script + (deltas.lookup (stringOf script)).getD 0) (fits : CountsFit virtual)
    (afterFits : CountsFit virtual') : ∃ next, applyUTXOCountDeltas db deltas = .ok next ∧
    (∀ script, next.lookup (utxoCountKeyForScriptPublicKey script) =
    countBytes (countOf virtual' script)) ∧ ∀ key, ¬ utxoIndexCountsBucket.path <+: key →
        next.lookup key = db.lookup key := by
  let holds : List ((_ : ScriptPublicKeyString) × Int) → Database →
      Prop := fun remaining state => remaining.NodupKeys ∧ remaining ⊆ deltas.entries ∧
      (∀ script, state.lookup (utxoCountKeyForScriptPublicKey script) =
      countBytes (if stringOf script ∈ remaining.keys then
            countOf virtual script else countOf virtual' script)) ∧
        ∀ key, ¬ utxoIndexCountsBucket.path <+: key → state.lookup key = db.lookup key
  have round : ∀ item rest state, holds (item :: rest) state →
      ∃ next, applyUTXOCountDelta state item = .ok next ∧ holds rest next := by
    rintro item rest state ⟨nodup, areDeltas, counts, others⟩
    have isDelta := (mem_entries deltas item).mp (areDeltas (.head _))
    have isString := stringOf_fromString item.1
    have isChanged := changed (newScriptPublicKeyFromString item.1)
    rw [isString, isDelta] at isChanged
    have isStored := counts (newScriptPublicKeyFromString item.1)
    rw [isString, keys_cons, if_pos mem_cons_self] at isStored
    rcases applyUTXOCountDelta_ok isStored isChanged (fits _)
      (afterFits _) with ⟨next, stepped, written⟩
    have distinctRest := nodupKeys_cons.mp nodup
    refine ⟨next, stepped, distinctRest.2, subset_of_cons_subset areDeltas, ?_, ?_⟩
    · intro script
      rw [written]
      by_cases isScript : script = newScriptPublicKeyFromString item.1
      · rw [if_pos (congrArg _ isScript), if_neg, isScript]
        rw [isScript, isString]
        exact distinctRest.1
      have notKey : stringOf script ≠ item.1 := by
        intro isKey
        rw [← isKey, fromString_stringOf] at isScript
        exact isScript rfl
      rw [if_neg (fun same => isScript (utxoCountKey_injective same)), counts, keys_cons]
      simp only [mem_cons, notKey, false_or]
    · intro key notCount
      rw [written, if_neg (ne_utxoCountKey notCount _), others key notCount]
  have begins : holds deltas.entries db := by
    refine ⟨deltas.nodupKeys, List.Subset.refl _, ?_, fun _ _ => rfl⟩
    intro script
    rw [stored]
    split_ifs with isKey
    · rfl
    have absent := AList.lookup_eq_none.mpr fun mem => isKey (AList.mem_keys.mp mem)
    have same := changed script
    rw [absent, getD_none, Int.add_zero, Int.natCast_inj] at same
    rw [same]
  rcases foldlM_ok holds round begins with ⟨last, looped, -, -, counts, others⟩
  refine ⟨last, looped, ?_, others⟩
  intro script
  rw [counts, keys_nil, if_neg not_mem_nil]

/-- The supply is brought up to date, and nothing else is written. -/
theorem updateSupply_ok {before after : Nat} {toAddSompiSupply toRemoveSompiSupply : UInt64}
    (stored : db.lookup circulatingSupplyKey = some (encode 8 (before % 2 ^ 64)))
    (changed : (toAddSompiSupply.toNat + before) % 2 ^ 64 = (toRemoveSompiSupply.toNat + after) % 2
    ^ 64) : ∃ next, updateCirculatingSompiSupply db toAddSompiSupply toRemoveSompiSupply =
    .ok next ∧ ∀ key, next.lookup key =
        if key = circulatingSupplyKey then some (encode 8 (after % 2 ^ 64))
        else db.lookup key := by
  have addBound := toAddSompiSupply.toNat_lt
  have removeBound := toRemoveSompiSupply.toNat_lt
  rw [updateCirculatingSompiSupply]
  split_ifs with ne
  · rw [stored]
    dsimp only
    rw [uint64_encode _ (Nat.mod_lt _ (by decide))]
    refine ⟨_, rfl, ?_⟩
    intro key
    have isAfter : (UInt64.ofNat (before % 2 ^ 64) + toAddSompiSupply -
        toRemoveSompiSupply).toNat = after % 2 ^ 64 := by
      rw [UInt64.toNat_sub, UInt64.toNat_add, UInt64.toNat_ofNat']
      omega
    rw [insert_ite, serializeUint64, isAfter]
  · refine ⟨db, rfl, ?_⟩
    intro key
    have same : after % 2 ^ 64 = before % 2 ^ 64 := by
      rw [not_not] at ne
      rw [ne] at changed
      omega
    split_ifs with isKey
    · rw [isKey, stored, same]
    · rfl

/-- After its loops a commit leaves the accounts of the coins it holds. -/
theorem commitAccounts_ok (accounted : Accounted base start)
    (pending : Pending coins base start virtual changes)
    (fits : CountsFit start) (afterFits : CountsFit virtual) (parents : List DomainHash) :
    ∃ next, commitAccounts changes parents = .ok next ∧ Indexes next virtual := by
  have putParents : ∀ key, Outside key → key ≠ virtualParentsKey →
      (changes.database.insert virtualParentsKey (serializeHashes parents)).lookup key =
      base.lookup key := by
    intro key beyond notParents
    rw [insert_ite, if_neg notParents, pending.outside key beyond]
  have supplyStored := putParents circulatingSupplyKey outside_supplyKey (by decide)
  rw [accounted.supply] at supplyStored
  rcases updateSupply_ok supplyStored pending.supply with ⟨supplied, updated, written⟩
  have countsStored : ∀ script, supplied.lookup (utxoCountKeyForScriptPublicKey script) =
      countBytes (countOf start script) := by
    intro script
    rw [written, if_neg (ne_utxoCountKey (by decide) script).symm,
      putParents _ (outside_utxoCountKey script) (ne_utxoCountKey (by decide) script).symm]
    exact accounted.count script
  rcases applyUTXOCountDeltas_ok countsStored pending.count fits
    afterFits with ⟨counted, applied, counts, others⟩
  refine ⟨counted.insert utxoCountsInitializedKey [1], ?_, ?_, ?_⟩
  · rw [commitAccounts, ok_bind updated, applied]
    rfl
  · apply Holds.insert_outside _ outside_initKey
    apply (pending.holds.insert_outside outside_virtualParentsKey
      (serializeHashes parents)).of_outside
    intro key isUnder
    have notCount : ¬ utxoIndexCountsBucket.path <+: key :=
      fun isCount => outside_of_counts isCount isUnder
    rw [others key notCount, written, if_neg]
    rintro rfl
    exact outside_supplyKey isUnder
  · apply Accounted.insert_other _ (by decide) (by decide)
    refine ⟨counts, ?_⟩
    rw [others circulatingSupplyKey (by decide), written, if_pos rfl]

end Htnd.UtxoIndex.Commit
