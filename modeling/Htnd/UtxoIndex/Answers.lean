import Htnd.UtxoIndex.Rebuild

/-!
# The answers of a synced index

Whether a script has coins, and the circulating supply, are read from the
accounts.  The coins and the balance of a script are read with a cursor over
the bucket of the script, which lists the coins of every script whose
keys begin with the path of this bucket.
-/

namespace Htnd.UtxoIndex.Answers

open Lib.Fallible Utxo.Entry Utxo.MutableDiff List
open ConsensusState.UtxoKeys Keys Store Coins Commit Staging Rebuild

variable {decoders : Decoders} {uis : UtxoIndexStore}
  {virtual : UTXOCollection} {script : ScriptPublicKey}

/-- The sum of the amounts of a script's coins. -/
def balanceOf (virtual : UTXOCollection) (script : ScriptPublicKey) : Nat :=
  ((coinsOf virtual script).map fun pair => pair.entry.amount.toNat).sum

/-- No coin of another script is kept under the path of the bucket. -/
def Separate (virtual : UTXOCollection) (script : ScriptPublicKey) : Prop :=
  ∀ outpoint entry, virtual.lookup outpoint = some entry →
    (bucketForScriptPublicKey script).path <+: coinKey entry.scriptPublicKey outpoint →
    entry.scriptPublicKey = script

/-- The sum of all amounts is a `uint64`. -/
def SupplyFits (virtual : UTXOCollection) : Prop := supplyOf virtual < 2 ^ 64

/-! ## The right answers -/

/-- `UTXOs` returns the coins of the script. -/
def UTXOsRight (decoders : Decoders) (uis : UtxoIndexStore)
    (virtual : UTXOCollection) (script : ScriptPublicKey) : Prop :=
  ∃ pairs, utxos decoders uis script 0 = .ok pairs ∧ pairs.Perm (coinsOf virtual script)

/-- `GetBalance` returns the sum of the amounts of the script's coins. -/
def BalanceRight (decoders : Decoders) (uis : UtxoIndexStore)
    (virtual : UTXOCollection) (script : ScriptPublicKey) : Prop :=
  ∃ balance, getBalance decoders uis script = .ok balance ∧ balance.toNat = balanceOf virtual script

/-- `HasUTXOs` says whether the script has a coin. -/
def HasUTXOsRight (uis : UtxoIndexStore) (virtual : UTXOCollection)
    (script : ScriptPublicKey) : Prop :=
  hasUTXOs uis script = .ok (decide (coinsOf virtual script ≠ []))

/-- The circulating supply is the sum of all amounts. -/
def SupplyRight (uis : UtxoIndexStore) (virtual : UTXOCollection) : Prop :=
  ∃ supply, getCirculatingSompiSupply uis = .ok supply ∧ supply.toNat = supplyOf virtual

theorem whenNothingStaged_eq {α : Type} (synced : Synced uis virtual) (message : String)
    (answer : Except IndexError α) : whenNothingStaged uis message answer = answer := by
  rw [whenNothingStaged, isAnythingStaged, synced.noAdditions, synced.noRemovals]
  rfl

theorem hasUTXOs_right (synced : Synced uis virtual)
    (script : ScriptPublicKey) : HasUTXOsRight uis virtual script := by
  rw [HasUTXOsRight, hasUTXOs, whenNothingStaged_eq synced,
    synced.indexed.accounted.count, countBytes, countOf_eq_length]
  split_ifs with isZero
  · rw [length_eq_zero_iff] at isZero
    simp [isZero]
  · rw [length_eq_zero_iff] at isZero
    simp [isZero]

theorem supply_right (synced : Synced uis virtual)
    (fits : SupplyFits virtual) : SupplyRight uis virtual := by
  refine ⟨UInt64.ofNat (supplyOf virtual), ?_, UInt64.toNat_ofNat_of_lt' fits⟩
  rw [getCirculatingSompiSupply, whenNothingStaged_eq synced,
    synced.indexed.accounted.supply, Nat.mod_eq_of_lt fits]
  exact uint64_encode _ fits

/-! ## What the cursor of a script lists -/

/-- A coin as a cursor over its bucket lists it. -/
def listed (pair : UTXOPair) : List UInt8 × List UInt8 :=
  (serializeOutpoint pair.outpoint, serializeUTXOEntry pair.entry)

def decodePair (decoders : Decoders) (item : List UInt8 × List UInt8) : Option UTXOPair :=
  (decoders.outpoint item.1).bind fun outpoint =>
    (decoders.decode item.2).map fun entry => ⟨outpoint, entry⟩

@[simp]
theorem decodePair_listed (decoders : Decoders) (pair : UTXOPair) :
    decodePair decoders (listed pair) = some pair := by
  rw [decodePair, listed, decoders.outpoint_serialize, Option.bind_some,
    decoders.decode_serialize, Option.map_some]

theorem listed_injective (decoders : Decoders) {first second : UTXOPair}
    (same : listed first = listed second) : first = second := by
  have decodedPair := congrArg (decodePair decoders) same
  rw [decodePair_listed, decodePair_listed] at decodedPair
  exact Option.some.inj decodedPair

/-- The coins of a script are listed by its cursor. -/
theorem listed_mem_cursor (holds : Holds uis.database virtual) {pair : UTXOPair}
    (isCoin : pair ∈ coinsOf virtual script) :
    listed pair ∈ cursor uis.database (bucketForScriptPublicKey script) := by
  rcases mem_coinsOf.mp isCoin with ⟨held, isScript⟩
  rw [mem_cursor]
  have stored := holds.stored pair.outpoint pair.entry held
  rwa [isScript] at stored

/-- What a script's cursor lists is a coin of some script. -/
theorem coin_of_mem_cursor (holds : Holds uis.database virtual) {suffix value : List UInt8}
    (listed : (suffix, value) ∈ cursor uis.database (bucketForScriptPublicKey script)) :
    ∃ point entry, virtual.lookup point = some entry ∧
    (bucketForScriptPublicKey script).key suffix = coinKey entry.scriptPublicKey point ∧
    value = serializeUTXOEntry entry := by
  rw [mem_cursor] at listed
  have isUnder : utxoIndexBucket.path <+: (bucketForScriptPublicKey script).key suffix :=
    (bucket_prefix_for script).trans (Bucket.prefix_key _ _)
  rcases holds.only _ value isUnder listed with ⟨point, entry, held, isKey⟩
  refine ⟨point, entry, held, isKey, ?_⟩
  rw [isKey, holds.stored point entry held] at listed
  exact (Option.some.inj listed).symm

/-- With no other script's coin under the path, the cursor lists the coins. -/
theorem cursor_perm (holds : Holds uis.database virtual) (separate : Separate virtual script)
    (decoders : Decoders) : (cursor uis.database (bucketForScriptPublicKey script)).Perm
    ((coinsOf virtual script).map listed) := by
  have nodup := (nodup_coinsOf virtual script).map fun _ _ same => listed_injective decoders same
  rw [perm_ext_iff_of_nodup (nodup_cursor _ _) nodup]
  rintro ⟨suffix, _⟩
  constructor
  · intro isListed
    rcases coin_of_mem_cursor holds isListed with ⟨point, entry, held, isKey, value⟩
    have isScript : entry.scriptPublicKey = script := by
      apply separate point entry held
      rw [← isKey]
      exact Bucket.prefix_key _ _
    refine mem_map.mpr ⟨⟨point, entry⟩, mem_coinsOf.mpr ⟨held, isScript⟩, ?_⟩
    have isSuffix : suffix = serializeOutpoint point := by
      rw [isScript] at isKey
      exact append_cancel_left isKey
    rw [listed, isSuffix, value]
  · intro isCoin
    rcases mem_map.mp isCoin with ⟨_, mem, same⟩
    rw [← same]
    exact listed_mem_cursor holds mem

/-! ## Reading the coins of a script -/

variable {items : List (List UInt8 × List UInt8)}

theorem readPairs_ok (decoders : Decoders) (areCoins : ∀ item ∈ items, ∃ pair, item = listed pair)
    (slice : List UTXOPair) : readPairs decoders 0 items slice =
    .ok (slice ++ items.filterMap (decodePair decoders)) := by
  induction items generalizing slice with
  | nil => rw [readPairs, filterMap_nil, append_nil]
  | cons item rest ih =>
    rw [forall_mem_cons] at areCoins
    rcases areCoins with ⟨⟨pair, rfl⟩, areCoins⟩
    have point : decoded decoders.outpoint (listed pair).1 = .ok pair.outpoint := by
      simp only [decoded, listed, decoders.outpoint_serialize]
    have entry : decoded decoders.decode (listed pair).2 = .ok pair.entry := by
      simp only [decoded, listed, decoders.decode_serialize]
    rw [readPairs, ok_bind point, ok_bind entry,
      if_neg (fun both => lt_irrefl 0 both.1), ih areCoins,
      filterMap_cons_some (decodePair_listed decoders pair), append_assoc, singleton_append]

/-- Without a limit every item gives a pair. -/
theorem length_of_readPairs {slice pairs : List UTXOPair}
    (isRead : readPairs decoders 0 items slice = .ok pairs) :
    pairs.length = slice.length + items.length := by
  induction items generalizing slice with
  | nil =>
    cases isRead
    rfl
  | cons item rest ih =>
    rcases ok_of_bind isRead with ⟨_, -, isRead⟩
    rcases ok_of_bind isRead with ⟨_, -, isRead⟩
    rw [ih isRead, length_append, length_singleton, length_cons]
    omega

section

variable (synced : Synced uis virtual) (fits : CountsFit virtual)

include synced fits

theorem sizeOfUTXOs_ok (script : ScriptPublicKey) :
    sizeOfUTXOs uis script 0 = .ok (countOf virtual script) := by
  have bound := fits script
  have isCount := UInt64.toNat_ofNat_of_lt' (lt_trans bound (by decide))
  rw [sizeOfUTXOs, if_pos rfl, ok_bind (storedCount_eq (synced.indexed.accounted.count script)
    (lt_trans bound (by decide))), isCount, if_neg (not_le.mpr bound)]

/--
The coins of a script are returned exactly when no coin of another script is
kept under the path of its bucket.
-/
theorem utxosRight_iff (differ : KeysDiffer (coinsHeld virtual))
    (decoders : Decoders) (script : ScriptPublicKey) :
    UTXOsRight decoders uis virtual script ↔ Separate virtual script := by
  have holds := synced.indexed.holds
  rw [UTXOsRight, utxos, whenNothingStaged_eq synced, ok_bind (sizeOfUTXOs_ok synced fits script)]
  constructor
  · rintro ⟨_, isRead, isPerm⟩ point entry held isUnder
    by_contra isIn
    rcases isUnder with ⟨suffix, isKey⟩
    have otherListed : (suffix, serializeUTXOEntry entry) ∈
        cursor uis.database (bucketForScriptPublicKey script) := by
      rw [mem_cursor, Bucket.key, isKey]
      exact holds.stored point entry held
    have notCoin : (suffix, serializeUTXOEntry entry) ∉ (coinsOf virtual script).map listed := by
      intro isCoin
      rcases mem_map.mp isCoin with ⟨pair, mem, same⟩
      rcases mem_coinsOf.mp mem with ⟨pairHeld, isScript⟩
      rw [Prod.mk.injEq] at same
      rw [← same.1] at isKey
      have sameKey := isKey
      exact isIn (differ _ _ _ _ ⟨pair.entry, isScript, pairHeld⟩ ⟨entry, rfl, held⟩ sameKey).symm
    have nodup := nodup_cons.mpr ⟨notCoin, (nodup_coinsOf virtual script).map
        fun _ _ same => listed_injective decoders same⟩
    have included : (suffix, serializeUTXOEntry entry) :: (coinsOf virtual script).map listed ⊆
        cursor uis.database (bucketForScriptPublicKey script) := by
      intro item mem
      rcases mem_cons.mp mem with rfl | isCoin
      · exact otherListed
      · rcases mem_map.mp isCoin with ⟨pair, isHeld, rfl⟩
        exact listed_mem_cursor holds isHeld
    have longer := (subperm_of_subset nodup included).length_le
    have length := length_of_readPairs isRead
    rw [length_cons, length_map] at longer
    rw [isPerm.length_eq] at length
    omega
  · intro separate
    have isPerm := cursor_perm holds separate decoders
    refine ⟨_, readPairs_ok decoders ?_ [], ?_⟩
    · intro item mem
      rw [isPerm.mem_iff, mem_map] at mem
      rcases mem with ⟨pair, -, rfl⟩
      exact ⟨pair, rfl⟩
    · have decodedPerm := isPerm.filterMap (decodePair decoders)
      rw [filterMap_map] at decodedPerm
      have identity : decodePair decoders ∘ listed = some := by
        funext pair
        exact decodePair_listed decoders pair
      rwa [identity, filterMap_some] at decodedPerm

end

/-! ## Adding up the balance -/

/-- The amount of what a cursor lists. -/
def amountOf (decoders : Decoders) (item : List UInt8 × List UInt8) : Nat :=
  ((decoders.amount item.2).getD 0).toNat

theorem sumAmounts_ok (decoders : Decoders) (areCoins : ∀ item ∈ items, ∃ pair,
    item = listed pair) : ∃ sum, sumAmounts decoders items = .ok sum ∧
    sum.toNat = (items.map (amountOf decoders)).sum % 2 ^ 64 := by
  let holds : List (List UInt8 × List UInt8) → UInt64 →
    Prop := fun remaining sum => (∀ item ∈ remaining, ∃ pair, item = listed pair) ∧
    (sum.toNat + (remaining.map (amountOf decoders)).sum) % 2 ^ 64 =
    (items.map (amountOf decoders)).sum % 2 ^ 64
  have round : ∀ item rest sum, holds (item :: rest) sum →
      ∃ next, (decoded decoders.amount item.2).map (sum + ·) = .ok next ∧ holds rest next := by
    rintro item rest sum ⟨areCoins, isSum⟩
    rw [forall_mem_cons] at areCoins
    rcases areCoins with ⟨⟨pair, rfl⟩, areCoins⟩
    refine ⟨sum + pair.entry.amount, ?_, areCoins, ?_⟩
    · simp only [decoded, listed, decoders.amount_serialize]
      rfl
    · have isAmount : amountOf decoders (listed pair) =
          pair.entry.amount.toNat := by
        rw [amountOf, listed, decoders.amount_serialize, Option.getD_some]
      rw [← isSum, map_cons, sum_cons, UInt64.toNat_add]
      omega
  have begins : holds items 0 := by
    refine ⟨areCoins, ?_⟩
    rw [UInt64.toNat_zero, zero_add]
  rcases foldlM_ok holds round begins with ⟨sum, looped, -, isSum⟩
  refine ⟨sum, looped, ?_⟩
  rw [← isSum, map_nil, sum_nil, add_zero, Nat.mod_eq_of_lt sum.toNat_lt]

theorem balanceOf_le (virtual : UTXOCollection) (script : ScriptPublicKey) :
    balanceOf virtual script ≤ supplyOf virtual := by
  rw [balanceOf, coinsOf, map_map]
  exact (filter_sublist.map _).sum_le_sum fun _ _ => Nat.zero_le _

/-- With no other script's coin under the path, the balance is right. -/
theorem balance_right (synced : Synced uis virtual)
    (fits : SupplyFits virtual) (separate : Separate virtual script)
    (decoders : Decoders) : BalanceRight decoders uis virtual script := by
  have isPerm := cursor_perm synced.indexed.holds separate decoders
  have areCoins : ∀ item ∈ cursor uis.database (bucketForScriptPublicKey script),
      ∃ pair, item = listed pair := by
    intro item mem
    rw [isPerm.mem_iff, mem_map] at mem
    rcases mem with ⟨pair, -, rfl⟩
    exact ⟨pair, rfl⟩
  rcases sumAmounts_ok decoders areCoins with ⟨sum, isRead, isSum⟩
  refine ⟨sum, ?_, ?_⟩
  · rw [getBalance, whenNothingStaged_eq synced, isRead]
  · have amounts : amountOf decoders ∘ listed = fun pair => pair.entry.amount.toNat := by
      funext pair
      simp [amountOf, listed, decoders.amount_serialize]
    have bound := lt_of_le_of_lt (balanceOf_le virtual script) fits
    rw [isSum, (isPerm.map (amountOf decoders)).sum_eq, map_map, amounts]
    exact Nat.mod_eq_of_lt bound

end Htnd.UtxoIndex.Answers
