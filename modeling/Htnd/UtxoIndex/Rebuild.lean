import Htnd.UtxoIndex.Staging

/-!
# Rebuilding the index

A reset deletes what the index holds and adds virtual's UTXO set page by page,
each page starting after the last outpoint of the page before it.
-/

namespace Htnd.UtxoIndex.Rebuild

open Lib.RangeLoops Lib.Fallible Lib.LittleEndian Utxo.Entry Utxo.MutableDiff
open Keys Store Coins Commit Staging List

variable {db : Database}

/-! ## Deleting -/

theorem lookup_deleteBucket (db : Database) (bucket : Bucket)
    (key : List UInt8) : (deleteBucket db bucket).lookup key =
      if bucket.path <+: key then none else db.lookup key := by
  have asKeys : deleteBucket db bucket = ((cursor db bucket).map fun item => bucket.key
      item.1).foldl (fun result key => result.erase key) db := by
    rw [foldl_map, deleteBucket]
  rw [asKeys, lookup_eraseEach]
  by_cases isUnder : bucket.path <+: key
  · split_ifs with listed
    · rfl
    rcases isUnder with ⟨suffix, rfl⟩
    rw [Option.eq_none_iff_forall_ne_some]
    intro value found
    exact listed (mem_map.mpr ⟨(suffix, value), mem_cursor.mpr found, rfl⟩)
  · rw [if_neg isUnder, if_neg]
    intro listed
    rcases mem_map.mp listed with ⟨item, -, rfl⟩
    exact isUnder (prefix_append _ _)

/-- After the deletions no coin and no count is left. -/
theorem lookup_deleteAll {key : List UInt8} (isOurs : utxoIndexBucket.path <+: key ∨
    utxoIndexCountsBucket.path <+: key) : (deleteAll db).lookup key = none := by
  rw [deleteAll, lookup_deleteBucket]
  split_ifs with isCoin
  · rfl
  · rw [lookup_deleteBucket, if_pos (isOurs.resolve_left isCoin)]

theorem cursor_deleteAll (db : Database) : cursor (deleteAll db) utxoIndexBucket = [] := by
  rw [eq_nil_iff_forall_not_mem]
  rintro ⟨_, _⟩ listed
  rw [mem_cursor, lookup_deleteAll (Or.inl (Bucket.prefix_key _ _))] at listed
  cases listed

/-- The state before the first page. -/
theorem initializeCirculatingSompiSupply_ok (codec : Decoders) (db : Database) :
    ∃ next, initializeCirculatingSompiSupply codec (deleteAll db) = .ok next ∧ Indexes next ∅ := by
  refine ⟨(deleteAll db).insert circulatingSupplyKey (serializeUint64 0), ?_, ?_, ?_, ?_⟩
  · rw [initializeCirculatingSompiSupply, cursor_deleteAll]
    rfl
  · apply Holds.insert_outside _ outside_supplyKey
    refine ⟨?_, ?_⟩
    · nofun
    · intro _ _ isUnder found
      rw [lookup_deleteAll (Or.inl isUnder)] at found
      cases found
  · intro script
    rw [insert_ite, if_neg (ne_utxoCountKey (by decide) script).symm,
      lookup_deleteAll (.inr (countsBucket_prefix_key script))]
    rfl
  · rfl

/-! ## Adding a page -/

/-- Add the pairs of a page to a collection. -/
def addPairs (virtual : UTXOCollection) (pairs : List UTXOPair) :
    UTXOCollection :=
  pairs.foldl (fun result pair => result.insert pair.outpoint pair.entry) virtual

def coinsIn (pairs : List UTXOPair) : CoinSet :=
  fun outpoint script => ∃ entry, entry.scriptPublicKey = script ∧
    (⟨outpoint, entry⟩ : UTXOPair) ∈ pairs

variable {coins : CoinSet} {base : Database} {start virtual : UTXOCollection}
  {changes : Changes} {pairs : List UTXOPair}

/-- The outpoints of the pairs are new and differ from each other. -/
structure Fresh (virtual : UTXOCollection) (pairs : List UTXOPair) : Prop where
  absent : ∀ pair ∈ pairs, virtual.lookup pair.outpoint = none
  distinct : (pairs.map UTXOPair.outpoint).Nodup

theorem Fresh.tail {pair : UTXOPair} (fresh : Fresh virtual (pair :: pairs)) :
    Fresh (virtual.insert pair.outpoint pair.entry) pairs := by
  have nodup := fresh.distinct
  rw [map_cons, nodup_cons] at nodup
  refine ⟨?_, nodup.2⟩
  intro other mem
  rw [insert_ite, if_neg]
  · exact fresh.absent other (.tail _ mem)
  · intro same
    rw [← same] at nodup
    exact nodup.1 (mem_map_of_mem mem)

theorem addPairs_pending (pending : Pending coins base start virtual changes)
    (differ : KeysDiffer coins) (areCoins : ∀ pair ∈ pairs,
    coins pair.outpoint pair.entry.scriptPublicKey) (fresh : Fresh virtual pairs) :
    Pending coins base start (addPairs virtual pairs) (pairs.foldl addPair changes) := by
  induction pairs generalizing virtual changes with
  | nil => exact pending
  | cons pair rest ih =>
    rw [forall_mem_cons] at areCoins
    have proper : Proper (additionOf pair) := rfl
    have put := pending.putNew differ proper areCoins.1 (fresh.absent pair (.head _))
    exact ih put areCoins.2 fresh.tail

theorem toRemoveSompiSupply_addPair (pairs : List UTXOPair)
    (changes : Changes) : (pairs.foldl addPair changes).toRemoveSompiSupply =
      changes.toRemoveSompiSupply := by
  induction pairs generalizing changes with
  | nil => rfl
  | cons pair rest ih =>
    rw [foldl_cons, ih]
    rfl

/-- A page is added to what is indexed. -/
theorem addPage_ok (index : Indexes db virtual) (within : Within virtual coins)
    (differ : KeysDiffer coins) (areCoins : ∀ pair ∈ pairs,
    coins pair.outpoint pair.entry.scriptPublicKey) (fresh : Fresh virtual pairs)
    (beforeFits : CountsFit virtual) (afterFits : CountsFit (addPairs virtual pairs)) : ∃ next,
    addAndCommitOutpointsWithoutTransaction db pairs = .ok next ∧
    Indexes next (addPairs virtual pairs) := by
  have pending := addPairs_pending (Pending.init index.holds within) differ areCoins fresh
  have countsStored : ∀ script, (pairs.foldl addPair ⟨db, ∅, 0, 0⟩).database.lookup
      (utxoCountKeyForScriptPublicKey script) = countBytes (countOf virtual script) := by
    intro script
    rw [pending.outside _ (outside_utxoCountKey script)]
    exact index.accounted.count script
  rcases applyUTXOCountDeltas_ok countsStored pending.count beforeFits
    afterFits with ⟨counted, applied, counts, others⟩
  have supplyStored : (counted.insert utxoCountsInitializedKey [1]).lookup circulatingSupplyKey =
      some (encode 8 (supplyOf virtual % 2 ^ 64)) := by
    rw [insert_ite, if_neg (by decide), others circulatingSupplyKey (by decide),
      pending.outside _ outside_supplyKey]
    exact index.accounted.supply
  have changed := pending.supply
  rw [toRemoveSompiSupply_addPair] at changed
  rcases updateSupply_ok supplyStored changed with ⟨next, updated, written⟩
  refine ⟨next, ?_, ?_, ?_, ?_⟩
  · rw [addAndCommitOutpointsWithoutTransaction, ok_bind applied]
    exact updated
  · apply (pending.holds.insert_outside outside_initKey [1]).of_outside
    intro key isUnder
    rw [written, if_neg, insert_ite, insert_ite]
    · rw [others key (fun isCount => outside_of_counts isCount isUnder)]
    · rintro rfl
      exact outside_supplyKey isUnder
  · intro script
    rw [written, insert_ite]
    exact counts script
  · rw [written, if_pos rfl]

/-! ## The pages of a reset -/

theorem addPairs_append (virtual : UTXOCollection) (first second : List UTXOPair) :
    addPairs virtual (first ++ second) = addPairs (addPairs virtual first) second :=
  foldl_append

/-- The counts grow with the pairs. -/
theorem countOf_addPairs (fresh : Fresh virtual pairs) (script : ScriptPublicKey) :
    countOf virtual script ≤ countOf (addPairs virtual pairs) script := by
  induction pairs generalizing virtual with
  | nil => exact le_rfl
  | cons pair rest ih =>
    refine Nat.le_trans ?_ (ih fresh.tail)
    rw [countOf_insert_absent (fresh.absent pair mem_cons_self)]
    exact Nat.le_add_left _ _

theorem lookup_addPairs {point : DomainOutpoint} {entry : UTXOEntry} (fresh : Fresh virtual pairs) :
    (addPairs virtual pairs).lookup point = some entry ↔ (⟨point, entry⟩ : UTXOPair) ∈ pairs ∨
    virtual.lookup point = some entry := by
  induction pairs generalizing virtual with
  | nil => simp [addPairs]
  | cons pair rest ih =>
    change (addPairs (virtual.insert pair.outpoint pair.entry) rest).lookup point = some entry ↔ _
    rw [ih fresh.tail, insert_ite, mem_cons, or_assoc]
    have absent := fresh.absent pair (.head _)
    split_ifs with isPair
    · rw [isPair, absent, Option.some.injEq]
      rcases pair with ⟨pairOutpoint, pairEntry⟩
      simp only [UTXOPair.mk.injEq, true_and]
      tauto
    · rcases pair with ⟨pairOutpoint, pairEntry⟩
      simp only [UTXOPair.mk.injEq, isPair, false_and, false_or]

/-- A page starts after the last outpoint of what came before it. -/
theorem getVirtualUTXOs_append {first second : List UTXOPair}
    (nodup : ((first ++ second).map UTXOPair.outpoint).Nodup) (limit : Nat) :
    getVirtualUTXOs (first ++ second) (first.getLast?.map UTXOPair.outpoint) limit =
    second.take limit := by
  rcases eq_nil_or_concat' first with rfl | ⟨front, last, rfl⟩
  · rfl
  have notLast : ∀ pair ∈ front, decide (pair.outpoint ≠ last.outpoint) = true := by
    intro pair mem
    rw [decide_eq_true_eq]
    intro same
    rw [map_append, map_append, append_assoc, nodup_append] at nodup
    refine nodup.2.2 pair.outpoint (mem_map_of_mem mem) last.outpoint ?_ same
    simp
  rw [List.getLast?_concat, Option.map_some, getVirtualUTXOs,
    append_assoc, dropWhile_append_of_pos notLast]
  simp

theorem Fresh.of_nodup (nodup : (pairs.map UTXOPair.outpoint).Nodup) : Fresh ∅ pairs :=
  ⟨fun _ _ => rfl, nodup⟩

/-- What comes later in the list is new to what came before. -/
theorem Fresh.of_append {first second : List UTXOPair}
    (nodup : ((first ++ second).map UTXOPair.outpoint).Nodup) :
    Fresh (addPairs ∅ first) second := by
  rw [map_append, nodup_append] at nodup
  refine ⟨?_, nodup.2.1⟩
  intro pair mem
  rw [Option.eq_none_iff_forall_ne_some]
  intro entry found
  rcases (lookup_addPairs (Fresh.of_nodup nodup.1)).mp found with
    before | impossible
  · have isBefore : pair.outpoint ∈ first.map UTXOPair.outpoint :=
      mem_map.mpr ⟨⟨pair.outpoint, entry⟩, before, rfl⟩
    exact nodup.2.2 pair.outpoint isBefore pair.outpoint (mem_map_of_mem mem) rfl
  · cases impossible

section Pages

variable {virtualUTXOs : List UTXOPair} (nodup : (virtualUTXOs.map UTXOPair.outpoint).Nodup)
  (fits : CountsFit (addPairs ∅ virtualUTXOs))

include nodup

variable {first second : List UTXOPair}

theorem countsFit_front (fits : CountsFit (addPairs ∅ virtualUTXOs))
    (isSplit : virtualUTXOs = first ++ second) : CountsFit (addPairs ∅ first) := by
  intro script
  refine Nat.lt_of_le_of_lt ?_ (fits script)
  rw [isSplit] at nodup ⊢
  rw [addPairs_append]
  exact countOf_addPairs (Fresh.of_append nodup) script

theorem within_front (isSplit : virtualUTXOs = first ++ second) :
    Within (addPairs ∅ first) (coinsIn virtualUTXOs) := by
  intro _ entry held
  rw [isSplit] at nodup ⊢
  rw [map_append, nodup_append] at nodup
  rcases (lookup_addPairs (Fresh.of_nodup nodup.1)).mp held with
    before | impossible
  · exact ⟨entry, rfl, mem_append_left second before⟩
  · cases impossible

include fits

/-- The loop of a reset adds all that remains. -/
theorem resetPages_ok (differ : KeysDiffer (coinsIn virtualUTXOs)) (rounds : Nat)
    (isSplit : virtualUTXOs = first ++ second) (enough : second.length < rounds)
    (index : Indexes db (addPairs ∅ first)) : ∃ next,
    resetPages virtualUTXOs rounds (first.getLast?.map UTXOPair.outpoint) db = .ok next ∧
    Indexes next (addPairs ∅ virtualUTXOs) := by
  induction rounds generalizing first second db with
  | zero => exact absurd enough (Nat.not_lt_zero _)
  | succ rounds ih =>
    have isPage : getVirtualUTXOs virtualUTXOs (first.getLast?.map UTXOPair.outpoint) pageSize =
        second.take pageSize := by
      rw [isSplit] at nodup ⊢
      exact getVirtualUTXOs_append nodup pageSize
    have isSplit' : virtualUTXOs = (first ++ second.take pageSize) ++ second.drop pageSize := by
      rw [isSplit, append_assoc, take_append_drop]
    have fresh : Fresh (addPairs ∅ first) (second.take pageSize) := by
      apply Fresh.of_append
      rw [isSplit', map_append, nodup_append] at nodup
      exact nodup.1
    have areCoins : ∀ pair ∈ second.take pageSize,
        coinsIn virtualUTXOs pair.outpoint pair.entry.scriptPublicKey := by
      intro pair mem
      refine ⟨pair.entry, rfl, ?_⟩
      rw [isSplit]
      exact mem_append_right first (mem_of_mem_take mem)
    have fitsPage := countsFit_front nodup fits isSplit'
    rw [addPairs_append] at fitsPage
    rcases addPage_ok index (within_front nodup isSplit) differ
      areCoins fresh (countsFit_front nodup fits isSplit) fitsPage with ⟨next, added, isIndexed⟩
    rw [← addPairs_append] at isIndexed
    rw [resetPages, isPage, ok_bind added]
    split_ifs with isLast
    · refine ⟨next, rfl, ?_⟩
      have isShort : second.length ≤ pageSize := by
        rw [length_take] at isLast
        omega
      rw [take_of_length_le isShort] at isIndexed
      rwa [isSplit]
    · have full : pageSize ≤ second.length := by
        rw [length_take] at isLast
        omega
      have nonNil : second.take pageSize ≠ [] := by
        intro empty
        rw [empty] at isLast
        exact isLast (by decide)
      have sameLast : (second.take pageSize).getLast? =
          (first ++ second.take pageSize).getLast? := by
        rw [List.getLast?_append_of_ne_nil _ nonNil]
      rw [sameLast]
      apply ih isSplit' _ isIndexed
      rw [length_drop]
      have pos : 0 < pageSize := by decide
      omega

end Pages

/-! ## Reset -/

/-- The pairs list the coins of a collection, each of them once. -/
def Lists (virtualUTXOs : List UTXOPair) (virtual : UTXOCollection) : Prop :=
  virtualUTXOs.Perm (virtual.entries.map fun coin => ⟨coin.1, coin.2⟩)

namespace Lists

variable {virtualUTXOs : List UTXOPair} (lists : Lists virtualUTXOs virtual)

include lists

theorem distinct : (virtualUTXOs.map UTXOPair.outpoint).Nodup := by
  rw [(lists.map UTXOPair.outpoint).nodup_iff, map_map]
  exact virtual.nodupKeys

theorem mem_iff {pair : UTXOPair} : pair ∈ virtualUTXOs ↔
      virtual.lookup pair.outpoint = some pair.entry := by
  rw [List.Perm.mem_iff lists, mem_map]
  constructor
  · rintro ⟨coin, mem, rfl⟩
    exact (mem_entries virtual coin).mp mem
  · intro held
    exact ⟨⟨pair.outpoint, pair.entry⟩, (mem_entries virtual _).mpr held, rfl⟩

theorem lookup_addPairs_eq (point : DomainOutpoint) :
    (addPairs ∅ virtualUTXOs).lookup point = virtual.lookup point := by
  apply Option.ext
  intro _
  rw [lookup_addPairs (Fresh.of_nodup lists.distinct), lists.mem_iff]
  simp

end Lists

def coinsHeld (virtual : UTXOCollection) : CoinSet :=
  fun outpoint script => ∃ entry, entry.scriptPublicKey = script ∧
    virtual.lookup outpoint = some entry

/-- A reset succeeds on every database and indexes virtual's coins. -/
theorem reset_ok (codec : Decoders) {virtualUTXOs : List UTXOPair}
    (lists : Lists virtualUTXOs virtual) (differ : KeysDiffer (coinsHeld virtual))
    (fits : CountsFit virtual) (parents : List DomainHash) {uis : UtxoIndexStore}
    (noAdditions : uis.toAdd = ∅) (noRemovals : uis.toRemove = ∅) : ∃ next,
    reset codec virtualUTXOs parents uis = .ok next ∧ Synced next virtual := by
  have same := lists.lookup_addPairs_eq
  have differPairs : KeysDiffer (coinsIn virtualUTXOs) := by
    apply differ.mono
    rintro _ script ⟨entry, isScript, mem⟩
    exact ⟨entry, isScript, lists.mem_iff.mp mem⟩
  have fitsPairs : CountsFit (addPairs ∅ virtualUTXOs) := by
    intro script
    rw [countOf_congr same]
    exact fits script
  rcases initializeCirculatingSompiSupply_ok codec uis.database with ⟨_, isCleared, indexedNone⟩
  rcases resetPages_ok lists.distinct fitsPairs differPairs (virtualUTXOs.length + 1)
    (nil_append virtualUTXOs).symm (Nat.lt_succ_self _) indexedNone with ⟨filled, isFilled, index⟩
  have isIndexed := index.congr same
  refine ⟨{ uis with
    database := updateAndCommitVirtualParentsWithoutTransaction filled
      parents }, ?_, noAdditions, noRemovals, ?_, ?_⟩
  · rw [List.getLast?_nil, Option.map_none] at isFilled
    rw [reset, ok_bind isCleared, isFilled]
    rfl
  · exact (isIndexed.holds.insert_outside outside_virtualParentsKey
      _).insert_outside outside_initKey _
  · apply Accounted.insert_other _ (by decide) (by decide)
    exact isIndexed.accounted.insert_other (by decide) (by decide) _

end Htnd.UtxoIndex.Rebuild
