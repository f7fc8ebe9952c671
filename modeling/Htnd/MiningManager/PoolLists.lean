import Htnd.MiningManager.State

/-!
# The lists of the transaction pool

The list in the order of the fee rates, and the lists of the transactions
chained to a parent: what adding and removing one transaction does to their
elements.
-/

namespace Htnd.MiningManager.PoolLists

open Lib.RangeLoops Lib.Slices Utxo.Entry State List

/-! ## The order by fee rate -/

section FeeRate

variable {feeRate : FeeRate} {first second third : MempoolTransaction}

theorem byteValues_injective {id other : DomainTransactionID}
    (same : byteValues id = byteValues other) : id = other := by
  have sameBytes := map_injective_iff.mpr (fun _ _ => UInt8.toNat_inj.mp) same
  cases id
  cases sameBytes
  rfl

theorem notBefore_iff : notBefore feeRate first second = true ↔
      first.rate feeRate < second.rate feeRate ∨ second.rate feeRate = first.rate feeRate ∧
      byteValues first.transactionID ≤ byteValues second.transactionID := by
  simp [notBefore, lessOrEqual]

theorem notBefore_refl : notBefore feeRate first first = true :=
  notBefore_iff.mpr (.inr ⟨rfl, le_refl _⟩)

theorem notBefore_trans (before : notBefore feeRate first second = true)
    (after : notBefore feeRate second third = true) : notBefore feeRate first third = true := by
  rw [notBefore_iff] at before after ⊢
  rcases before with lower | ⟨same, ordered⟩
  · rcases after with lower' | ⟨same', -⟩
    · exact .inl (lower.trans lower')
    · exact .inl (same' ▸ lower)
  · rcases after with lower' | ⟨same', ordered'⟩
    · exact .inl (same ▸ lower')
    · exact .inr ⟨same'.trans same, ordered.trans ordered'⟩

theorem notBefore_total : notBefore feeRate first second = true ∨
      notBefore feeRate second first = true := by
  rw [notBefore_iff, notBefore_iff]
  rcases lt_trichotomy (first.rate feeRate) (second.rate feeRate) with
    lower | same | higher
  · exact .inl (.inl lower)
  · rcases le_total (byteValues first.transactionID)
      (byteValues second.transactionID) with ordered | ordered
    · exact .inl (.inr ⟨same.symm, ordered⟩)
    · exact .inr (.inr ⟨same, ordered⟩)
  · exact .inr (.inl higher)

theorem id_eq_of_notBefore (before : notBefore feeRate first second = true)
    (after : notBefore feeRate second first = true) :
    first.transactionID = second.transactionID := by
  rw [notBefore_iff] at before after
  rcases before with lower | ⟨same, ordered⟩
  · rcases after with lower' | ⟨same', -⟩
    · exact absurd lower' lower.asymm
    · exact absurd lower (same' ▸ lt_irrefl _)
  · rcases after with lower' | ⟨-, ordered'⟩
    · exact absurd lower' (same ▸ lt_irrefl _)
    · exact byteValues_injective (le_antisymm ordered ordered')

end FeeRate

/-- A slice in the order of the fee rates, with given elements. -/
structure Listed (feeRate : FeeRate) (slice : List MempoolTransaction)
    (Element : MempoolTransaction → Prop) : Prop where
  sorted : slice.Pairwise fun first second => notBefore feeRate first second = true
  nodup : slice.Nodup
  mem_iff : ∀ transaction, transaction ∈ slice ↔ Element transaction

def Populated (transaction : Transaction) : Prop := transaction.fee ≠ 0 ∧ transaction.mass ≠ 0

section Listed

variable {feeRate : FeeRate} {slice : List MempoolTransaction}
  {Element : MempoolTransaction → Prop} {tx : MempoolTransaction}
  (listed : Listed feeRate slice Element) (filled : Populated tx.transaction)

include filled

theorem index_of_populated : findTransactionIndex feeRate slice tx =
    some (firstAtLeast (notBefore feeRate) slice tx,
    decide (slice[firstAtLeast (notBefore feeRate) slice tx]?.map (·.transactionID) =
    some tx.transactionID)) := by
  rw [findTransactionIndex, if_neg (not_or.mpr filled)]

theorem push_of_populated : push feeRate slice tx =
      some (slice.take (firstAtLeast (notBefore feeRate) slice tx) ++ tx :: slice.drop
      (firstAtLeast (notBefore feeRate) slice tx)) := by
  rw [push, index_of_populated filled]
  rfl

include listed

theorem push_eq (isNew : ¬ Element tx) : ∃ slice', push feeRate slice tx = some slice' ∧
    Listed feeRate slice' fun other => other = tx ∨ Element other := by
  have perm := perm_insert slice tx (firstAtLeast (notBefore feeRate) slice tx)
  refine ⟨_, push_of_populated filled, ?_, ?_, ?_⟩
  · exact sorted_insert listed.sorted (fun _ _ _ => notBefore_trans) (fun _ _ => notBefore_total)
  · rw [perm.nodup_iff, nodup_cons, listed.mem_iff]
    exact ⟨isNew, listed.nodup⟩
  · intro other
    rw [perm.mem_iff, mem_cons, listed.mem_iff]

theorem remove_eq (isElement : Element tx) (unique : ∀ other, Element other → other.transactionID =
      tx.transactionID → other = tx) : ∃ slice', remove feeRate slice tx = some slice' ∧
      Listed feeRate slice' fun other => Element other ∧ other ≠ tx := by
  have found : slice[firstAtLeast (notBefore feeRate) slice tx]? = some tx := by
    rcases getElem?_firstAtLeast listed.sorted (fun _ _ _ => notBefore_trans)
      ((listed.mem_iff tx).mpr isElement) notBefore_refl
      notBefore_refl with ⟨other, mem, isAt, before, after⟩
    rw [isAt, unique other ((listed.mem_iff other).mp mem) (id_eq_of_notBefore after before)]
  have removes : remove feeRate slice tx = some (slice.eraseIdx
      (firstAtLeast (notBefore feeRate) slice tx)) := by
    rw [remove, index_of_populated filled]
    dsimp only
    rw [found, Option.map_some]
    simp only [decide_true]
    rfl
  have erased (index : Nat) (isAt : slice[index]? = some tx) :
      Listed feeRate (slice.eraseIdx index) fun other => Element other ∧ other ≠ tx := by
    have sublist := eraseIdx_sublist slice index
    refine ⟨listed.sorted.sublist sublist, listed.nodup.sublist sublist, ?_⟩
    intro other
    rcases List.getElem?_eq_some_iff.mp isAt with ⟨inRange, isTransaction⟩
    have perm := getElem_cons_eraseIdx_perm inRange
    rw [isTransaction] at perm
    have notErased := (nodup_cons.mp (perm.nodup_iff.mpr listed.nodup)).1
    rw [← listed.mem_iff, ← perm.mem_iff, mem_cons]
    constructor
    · intro isErased
      refine ⟨.inr isErased, ?_⟩
      rintro rfl
      exact notErased isErased
    · rintro ⟨isIn, ne⟩
      exact isIn.resolve_left ne
  exact ⟨_, removes, erased _ found⟩

end Listed

/-! ## Chained transactions -/

/-- The lists of the map hold what is related to their ID, each once. -/
structure Chained (chained : IDToTransactionsSliceMap)
    (Related : DomainTransactionID → MempoolTransaction → Prop) : Prop where
  mem_iff : ∀ parentID child, child ∈ chainedTo chained parentID ↔ Related parentID child
  nodup : ∀ parentID, (chainedTo chained parentID).Nodup

variable (chained : IDToTransactionsSliceMap) (parentID other : DomainTransactionID)

theorem chainedTo_insert (children : List MempoolTransaction) :
    chainedTo (chained.insert parentID children) other =
      if other = parentID then children else chainedTo chained other := by
  rw [chainedTo, insert_ite]
  split_ifs
  · rfl
  · rfl

theorem chainedTo_erase : chainedTo (chained.erase parentID) other =
      if other = parentID then [] else chainedTo chained other := by
  rw [chainedTo, erase_ite]
  split_ifs
  · rfl
  · rfl

namespace Chained

variable {chained : IDToTransactionsSliceMap}
  {Related Related' : DomainTransactionID → MempoolTransaction → Prop} {tx : MempoolTransaction}

section

variable (chains : Chained chained Related)

include chains

theorem congr (same : ∀ parentID child, Related parentID child ↔
      Related' parentID child) : Chained chained Related' :=
  ⟨fun parentID child => (chains.mem_iff parentID child).trans (same parentID child), chains.nodup⟩

theorem chain {parent : MempoolTransaction} (isNew : ¬ Related parent.transactionID tx) :
    Chained (State.chain tx chained parent) fun parentID child =>
    (child = tx ∧ parentID = parent.transactionID) ∨ Related parentID child := by
  constructor
  · intro parentID child
    rw [State.chain, chainedTo_insert]
    split_ifs with link
    · rw [mem_append, mem_singleton, ← link, chains.mem_iff, or_comm, and_iff_left rfl]
    · rw [chains.mem_iff, or_iff_right fun both => link both.2]
  · intro parentID
    rw [State.chain, chainedTo_insert]
    split_ifs
    · rw [nodup_append]
      refine ⟨chains.nodup _, nodup_singleton _, ?_⟩
      rintro child mem _ last rfl
      rw [mem_singleton] at last
      rw [last, chains.mem_iff] at mem
      exact isNew mem
    · exact chains.nodup parentID

theorem chainEach {parents : List MempoolTransaction}
    (nodup : (parents.map MempoolTransaction.transactionID).Nodup) (isNew : ∀ parent ∈ parents,
    ¬ Related parent.transactionID tx) : Chained (parents.foldl (State.chain tx) chained)
    fun parentID child => (child = tx ∧ parentID ∈ parents.map MempoolTransaction.transactionID) ∨
    Related parentID child := by
  induction parents generalizing chained Related with
  | nil =>
    refine chains.congr fun parentID child => ?_
    simp
  | cons parent rest ih =>
    rw [map_cons, nodup_cons] at nodup
    rw [forall_mem_cons] at isNew
    have restNew : ∀ other ∈ rest, ¬ ((tx = tx ∧ other.transactionID = parent.transactionID) ∨
          Related other.transactionID tx) := by
      rintro other mem (⟨-, same⟩ | linked)
      · exact nodup.1 (same ▸ mem_map_of_mem mem)
      · exact isNew.2 other mem linked
    refine (ih (chains.chain isNew.1) nodup.2 restNew).congr ?_
    intro parentID child
    rw [map_cons, mem_cons]
    tauto

theorem removeFromChainedList {parentID : DomainTransactionID}
    (sameAddr : ∀ child, Related parentID child → child.address = tx.address → child = tx) :
    Chained (State.removeFromChainedList tx chained parentID) fun other child => Related other
    child ∧ ¬ (child = tx ∧ other = parentID) := by
  have apart (missing : ¬ Related parentID tx) : Chained chained fun other child => Related other
      child ∧ ¬ (child = tx ∧ other = parentID) := by
    refine chains.congr fun other child => ?_
    constructor
    · intro linked
      refine ⟨linked, ?_⟩
      rintro ⟨rfl, rfl⟩
      exact missing linked
    · exact And.left
  rw [State.removeFromChainedList.eq_def]
  cases stored : chained.lookup parentID with
  | none =>
    apply apart
    rw [← chains.mem_iff, chainedTo, stored]
    exact not_mem_nil
  | some children =>
    have isList : chainedTo chained parentID = children := by
      rw [chainedTo, stored]
      rfl
    dsimp only
    split
    · rename_i notFound
      apply apart
      rw [← chains.mem_iff, isList]
      intro mem
      rw [List.findIdx?_eq_none_iff] at notFound
      simpa using notFound tx mem
    · rename_i index found
      rw [List.findIdx?_eq_some_iff_getElem] at found
      rcases found with ⟨inRange, isFound, -⟩
      have isTransaction : children[index] = tx := by
        apply sameAddr
        · rw [← chains.mem_iff, isList]
          exact getElem_mem inRange
        · simpa using isFound
      have perm := swapRemove_perm (isTransaction ▸ List.getElem?_eq_getElem inRange)
      have nodup := perm.nodup_iff.mpr (isList ▸ chains.nodup parentID)
      rw [nodup_cons] at nodup
      have lists (other : DomainTransactionID) : chainedTo
            (if swapRemove children index = [] then chained.erase parentID
              else chained.insert parentID (swapRemove children index))
            other =
          if other = parentID then swapRemove children index
            else chainedTo chained other := by
        split_ifs with empty link link
        · rw [chainedTo_erase, if_pos link, empty]
        · rw [chainedTo_erase, if_neg link]
        · rw [chainedTo_insert, if_pos link]
        · rw [chainedTo_insert, if_neg link]
      constructor
      · intro other child
        rw [lists]
        split_ifs with link
        · rw [link, ← chains.mem_iff, isList, ← perm.mem_iff, mem_cons]
          constructor
          · intro mem
            refine ⟨.inr mem, ?_⟩
            rintro ⟨rfl, -⟩
            exact nodup.1 mem
          · rintro ⟨isChild, ne⟩
            exact isChild.resolve_left fun same => ne ⟨same, rfl⟩
        · rw [chains.mem_iff, and_iff_left fun both => link both.2]
      · intro other
        rw [lists]
        split_ifs
        · exact nodup.2
        · exact chains.nodup other

end

theorem removeFromEach (parentIDs : List DomainTransactionID) (chains : Chained chained Related)
    (sameAddr : ∀ parentID child, Related parentID child → child.address = tx.address →
    child = tx) : Chained (parentIDs.foldl (State.removeFromChainedList tx) chained)
    fun other child => Related other child ∧ ¬ (child = tx ∧ other ∈ parentIDs) := by
  induction parentIDs generalizing chained Related with
  | nil =>
    refine chains.congr fun parentID child => ?_
    simp
  | cons parentID rest ih =>
    have gone := chains.removeFromChainedList (sameAddr parentID)
    refine (ih gone fun other child linked => sameAddr other child linked.1).congr ?_
    intro other child
    rw [mem_cons]
    tauto

section Parents

variable {parents : IDToTransactionMap} (chains : Chained chained Related)
  (ids : ∀ parentID parent, parents.lookup parentID = some parent → parent.transactionID = parentID)

include ids

theorem map_id_eq_keys : parents.entries.map (·.2.transactionID) = parents.keys :=
  map_congr_left fun item mem => ids item.1 item.2 ((mem_entries parents item).mp mem)

include chains

theorem chainToParents (isNew : ∀ parentID, ¬ Related parentID tx) :
    Chained (parents.entries.foldl (fun chained parent => State.chain tx chained parent.2) chained)
    fun parentID child => (child = tx ∧ (parents.lookup parentID).isSome = true) ∨
    Related parentID child := by
  have isKeys : (parents.entries.map Sigma.snd).map
      MempoolTransaction.transactionID = parents.keys := map_map.trans (map_id_eq_keys ids)
  have isEach := chains.chainEach (isKeys ▸ show parents.keys.Nodup from parents.nodupKeys)
    fun parent _ => isNew parent.transactionID
  rw [foldl_map, isKeys] at isEach
  refine isEach.congr fun parentID child => ?_
  rw [AList.lookup_isSome, AList.mem_keys]

theorem unchainFromParents (sameAddr : ∀ parentID child, Related parentID child →
    child.address = tx.address → child = tx) :
    Chained (parents.entries.foldl (fun chained parent => State.removeFromChainedList tx chained
    parent.2.transactionID) chained) fun parentID child => Related parentID child ∧
    ¬ (child = tx ∧ (parents.lookup parentID).isSome = true) := by
  have isEach := chains.removeFromEach (parents.entries.map (·.2.transactionID)) sameAddr
  rw [foldl_map, map_id_eq_keys ids] at isEach
  refine isEach.congr fun parentID child => ?_
  rw [AList.lookup_isSome, AList.mem_keys]

end Parents

theorem erase (chains : Chained chained Related) (parentID : DomainTransactionID) :
    Chained (chained.erase parentID) fun other child => Related other child ∧ other ≠ parentID := by
  constructor
  · intro other child
    rw [chainedTo_erase]
    split_ifs with link
    · simp [link]
    · rw [chains.mem_iff, and_iff_left link]
  · intro other
    rw [chainedTo_erase]
    split_ifs
    · exact nodup_nil
    · exact chains.nodup other

end Chained

end Htnd.MiningManager.PoolLists
