import Htnd.Lib.MapTotals
import Htnd.UtxoIndex.Store

/-!
# The coins a database holds

A database holds a set of coins if the keys under the bucket of the index are
the keys of these coins.  Two coins may have the same key, since a script
stands in the path as it is.  Among coins for which that does not happen,
writing and deleting a coin's key adds and removes the coin.
-/

namespace Htnd.UtxoIndex.Coins

open Lib.RangeLoops Lib.MapTotals Lib.LittleEndian Utxo.Entry Utxo.MutableDiff
open ConsensusState.UtxoKeys Keys Store

/-- The key of a coin with this script and outpoint. -/
def coinKey (scriptPublicKey : ScriptPublicKey) (outpoint : DomainOutpoint) : List UInt8 :=
  convertOutpointToKey (bucketForScriptPublicKey scriptPublicKey) outpoint

/-- The outpoints with their scripts that a result is about. -/
abbrev CoinSet := DomainOutpoint → ScriptPublicKey → Prop

/-- Coins of different scripts have different keys. -/
def KeysDiffer (coins : CoinSet) : Prop :=
  ∀ outpoint script other otherScript, coins outpoint script → coins other otherScript →
    coinKey script outpoint = coinKey otherScript other → script = otherScript

/-- The coins of a collection are among the given ones. -/
def Within (virtual : UTXOCollection) (coins : CoinSet) : Prop :=
  ∀ outpoint entry, virtual.lookup outpoint = some entry → coins outpoint entry.scriptPublicKey

/-- The keys under the bucket of the index are those of the coins. -/
structure Holds (database : Database) (virtual : UTXOCollection) : Prop where
  stored : ∀ outpoint entry, virtual.lookup outpoint = some entry →
    database.lookup (coinKey entry.scriptPublicKey outpoint) = some (serializeUTXOEntry entry)
  only : ∀ key value, utxoIndexBucket.path <+: key → database.lookup key = some value →
    ∃ outpoint entry, virtual.lookup outpoint = some entry ∧
    key = coinKey entry.scriptPublicKey outpoint

variable {coins : CoinSet} {db database' : Database} {virtual virtual' : UTXOCollection}
  {point other : DomainOutpoint} {entry : UTXOEntry} {script : ScriptPublicKey}

theorem KeysDiffer.outpoint_eq (differ : KeysDiffer coins)
    {otherScript : ScriptPublicKey} (isCoin : coins point script) (isIn : coins other otherScript)
    (same : coinKey script point = coinKey otherScript other) : point = other := by
  have sameScript := differ point script other otherScript isCoin isIn same
  subst sameScript
  exact outpoint_injective (List.append_cancel_left same)

theorem KeysDiffer.mono {larger : CoinSet} (differ : KeysDiffer larger)
    (included : ∀ point script, coins point script → larger point script) : KeysDiffer coins :=
  fun point script other otherScript isCoin isIn =>
    differ point script other otherScript (included _ _ isCoin) (included _ _ isIn)

namespace Holds

section

variable (holds : Holds db virtual)

include holds

/-- Only the keys under the bucket of the index matter. -/
theorem of_outside (same : ∀ key, utxoIndexBucket.path <+: key →
      database'.lookup key = db.lookup key) : Holds database' virtual where
  stored point entry isCoin := by
    rw [same (coinKey entry.scriptPublicKey point) (bucket_prefix_key entry.scriptPublicKey point)]
    exact holds.stored point entry isCoin
  only key value isUnder found := by
    rw [same key isUnder] at found
    exact holds.only key value isUnder found

theorem insert_outside {key : List UInt8} (beyond : Outside key)
    (value : List UInt8) : Holds (db.insert key value) virtual := by
  apply holds.of_outside
  intro _ isUnder
  rw [insert_ite, if_neg]
  rintro rfl
  exact beyond isUnder

theorem congr (same : ∀ point, virtual.lookup point = virtual'.lookup point) :
    Holds db virtual' where
  stored point entry isCoin := by
    rw [← same] at isCoin
    exact holds.stored point entry isCoin
  only key value isUnder found := by
    rcases holds.only key value isUnder found with ⟨point, entry, isCoin, isKey⟩
    rw [same] at isCoin
    exact ⟨point, entry, isCoin, isKey⟩

/-- What is stored under the key of a coin. -/
theorem lookup_coinKey (differ : KeysDiffer coins) (within : Within virtual coins)
    (isCoin : coins point script) : db.lookup (coinKey script point) =
    ((virtual.lookup point).filter fun entry => entry.scriptPublicKey = script).map
    serializeUTXOEntry := by
  cases stored : db.lookup (coinKey script point) with
  | none =>
    cases held : virtual.lookup point with
    | none => rfl
    | some entry =>
      by_cases isScript : entry.scriptPublicKey = script
      · rw [← isScript, holds.stored point entry held] at stored
        cases stored
      · simp [isScript]
  | some value =>
    rcases holds.only _ value (bucket_prefix_key _ _) stored with ⟨other, entry, held, sameKey⟩
    have isIn := within other entry held
    have isScript := differ _ _ _ _ isCoin isIn sameKey
    have isOutpoint := differ.outpoint_eq isCoin isIn sameKey
    subst isScript isOutpoint
    rw [holds.stored point entry held] at stored
    rw [held, ← stored]
    simp [Option.filter]

/-- Deleting the key of a coin removes the coin. -/
theorem erase (differ : KeysDiffer coins) (within : Within virtual coins)
    (held : virtual.lookup point = some entry) :
    Holds (db.erase (coinKey entry.scriptPublicKey point)) (virtual.erase point) where
  stored other otherEntry isCoin := by
    rw [erase_ite] at isCoin
    split_ifs at isCoin with isIn
    rw [erase_ite, if_neg]
    · exact holds.stored other otherEntry isCoin
    · intro sameKey
      exact isIn (differ.outpoint_eq (within other otherEntry isCoin)
        (within point entry held) sameKey)
  only key value isUnder found := by
    rw [erase_ite] at found
    split_ifs at found with isKey
    rcases holds.only key value isUnder found with ⟨other, otherEntry, isCoin, isOtherKey⟩
    refine ⟨other, otherEntry, ?_, isOtherKey⟩
    rw [erase_ite, if_neg, isCoin]
    rintro rfl
    rw [held] at isCoin
    cases isCoin
    exact isKey isOtherKey

/-- Writing the key of a coin adds the coin or replaces it. -/
theorem insert (differ : KeysDiffer coins) (within : Within virtual coins)
    (isCoin : coins point entry.scriptPublicKey)
    (sameScript : ∀ held, virtual.lookup point = some held → held.scriptPublicKey =
    entry.scriptPublicKey) : Holds (db.insert (coinKey entry.scriptPublicKey point)
    (serializeUTXOEntry entry)) (virtual.insert point entry) where
  stored other otherEntry held := by
    rw [insert_ite] at held
    rw [insert_ite]
    split_ifs at held with isIn
    · cases held
      rw [isIn, if_pos rfl]
    rw [if_neg]
    · exact holds.stored other otherEntry held
    · intro sameKey
      exact isIn (differ.outpoint_eq (within other otherEntry held) isCoin sameKey)
  only key value isUnder found := by
    rw [insert_ite] at found
    split_ifs at found with isKey
    · exact ⟨point, entry, AList.lookup_insert virtual, isKey⟩
    rcases holds.only key value isUnder found with ⟨other, otherEntry, held, isOtherKey⟩
    refine ⟨other, otherEntry, ?_, isOtherKey⟩
    rw [insert_ite, if_neg, held]
    rintro rfl
    rw [sameScript otherEntry held] at isOtherKey
    exact isKey isOtherKey

/-- The amount found under the key of a coin. -/
theorem storedUTXOAmount_eq (codec : Decoders) (differ : KeysDiffer coins)
    (within : Within virtual coins) (isCoin : coins point script) :
    storedUTXOAmount codec db (coinKey script point) =
    .ok (((virtual.lookup point).filter fun entry => entry.scriptPublicKey = script).map
    UTXOEntry.amount) := by
  rw [storedUTXOAmount, holds.lookup_coinKey differ within isCoin]
  cases (virtual.lookup point).filter fun entry => entry.scriptPublicKey = script with
  | none => rfl
  | some entry =>
    simp only [Option.map_some, decoded, codec.amount_serialize]
    rfl

end

end Holds

/-! ## Counts and sums -/

def coinsOf (virtual : UTXOCollection) (script : ScriptPublicKey) : List UTXOPair :=
  (virtual.entries.filter fun coin => coin.2.scriptPublicKey = script).map
    fun coin => ⟨coin.1, coin.2⟩

def countOf (virtual : UTXOCollection) (script : ScriptPublicKey) : Nat :=
  total (fun _ entry => if entry.scriptPublicKey = script then 1 else 0) virtual

def supplyOf (virtual : UTXOCollection) : Nat := total (fun _ entry => entry.amount.toNat) virtual

theorem mem_coinsOf {pair : UTXOPair} : pair ∈ coinsOf virtual script ↔
      virtual.lookup pair.outpoint = some pair.entry ∧ pair.entry.scriptPublicKey = script := by
  rw [coinsOf, List.mem_map]
  constructor
  · rintro ⟨_, mem, rfl⟩
    rw [List.mem_filter, mem_entries, decide_eq_true_eq] at mem
    exact mem
  · rintro ⟨held, isScript⟩
    refine ⟨⟨pair.outpoint, pair.entry⟩, ?_, rfl⟩
    rw [List.mem_filter, mem_entries, decide_eq_true_eq]
    exact ⟨held, isScript⟩

theorem nodup_coinsOf (virtual : UTXOCollection) (script : ScriptPublicKey) :
    (coinsOf virtual script).Nodup := by
  refine (virtual.nodupKeys.nodup.filter _).map ?_
  rintro ⟨_, _⟩ ⟨_, _⟩ same
  rcases same with ⟨rfl, rfl⟩
  rfl

theorem countOf_eq_length (virtual : UTXOCollection) (script : ScriptPublicKey) :
    countOf virtual script = (coinsOf virtual script).length := by
  have filtered := total_eq_sum_filter (fun _ _ => 1)
    (fun _ entry => decide (entry.scriptPublicKey = script)) virtual
  simp only [decide_eq_true_eq] at filtered
  rw [countOf, filtered, coinsOf, List.length_map]
  simp

section Congr

variable (same : ∀ point, virtual.lookup point = virtual'.lookup point)

include same

theorem countOf_congr (script : ScriptPublicKey) :
    countOf virtual script = countOf virtual' script :=
  total_congr _ same

theorem supplyOf_congr : supplyOf virtual = supplyOf virtual' := total_congr _ same

end Congr

theorem countOf_erase (held : virtual.lookup point = some entry) (script : ScriptPublicKey) :
    countOf virtual script = (if entry.scriptPublicKey = script then 1 else 0) + countOf
    (virtual.erase point) script :=
  total_erase _ held

theorem supplyOf_erase (held : virtual.lookup point = some entry) :
    supplyOf virtual = entry.amount.toNat + supplyOf (virtual.erase point) :=
  total_erase _ held

/-- Adding a coin under an outpoint that holds none. -/
theorem countOf_insert_absent (absent : virtual.lookup point = none) (entry : UTXOEntry)
    (script : ScriptPublicKey) : countOf (virtual.insert point entry) script =
    (if entry.scriptPublicKey = script then 1 else 0) + countOf virtual script := by
  rw [countOf, total_insert, total_erase_absent _ absent, countOf]

theorem supplyOf_insert_absent (absent : virtual.lookup point = none) (entry : UTXOEntry) :
    supplyOf (virtual.insert point entry) = entry.amount.toNat + supplyOf virtual := by
  rw [supplyOf, total_insert, total_erase_absent _ absent, supplyOf]

theorem supplyOf_insert_held {held : UTXOEntry} (isHeld : virtual.lookup point = some held)
    (entry : UTXOEntry) : supplyOf (virtual.insert point entry) + held.amount.toNat =
    entry.amount.toNat + supplyOf virtual := by
  rw [supplyOf, total_insert, supplyOf, total_erase _ isHeld]
  omega

/-! ## The accounts -/

/-- A count is stored unless it is zero. -/
def countBytes (count : Nat) : Option (List UInt8) :=
  if count = 0 then none else some (encode 8 count)

/-- The stored counts and the stored supply are those of the coins. -/
structure Accounted (database : Database) (virtual : UTXOCollection) : Prop where
  count : ∀ script, database.lookup (utxoCountKeyForScriptPublicKey script) =
    countBytes (countOf virtual script)
  supply : database.lookup circulatingSupplyKey = some (encode 8 (supplyOf virtual % 2 ^ 64))

/-- The coins and the accounts of a collection. -/
structure Indexes (database : Database) (virtual : UTXOCollection) : Prop where
  holds : Holds database virtual
  accounted : Accounted database virtual

theorem Accounted.congr (accounted : Accounted db virtual)
    (same : ∀ point, virtual.lookup point = virtual'.lookup point) : Accounted db virtual' where
  count script := by
    rw [← countOf_congr same]
    exact accounted.count script
  supply := by
    rw [← supplyOf_congr same]
    exact accounted.supply

theorem Indexes.congr (index : Indexes db virtual)
    (same : ∀ point, virtual.lookup point = virtual'.lookup point) : Indexes db virtual' :=
  ⟨index.holds.congr same, index.accounted.congr same⟩

/-- Writing a key that is neither a coin's nor an account's. -/
theorem Accounted.insert_other (accounted : Accounted db virtual) {key : List UInt8}
    (notCount : ¬ utxoIndexCountsBucket.path <+: key) (notSupply : key ≠ circulatingSupplyKey)
    (value : List UInt8) : Accounted (db.insert key value) virtual where
  count script := by
    rw [insert_ite, if_neg (ne_utxoCountKey notCount script).symm]
    exact accounted.count script
  supply := by
    rw [insert_ite, if_neg notSupply.symm]
    exact accounted.supply

end Htnd.UtxoIndex.Coins
