import Htnd.ConsensusState.VirtualUtxoStore

/-!
# Reading through a staged diff and reading after the commit

A store represents a UTXO set when the database holds exactly the set's
entries under their keys and every cached entry is one of them.  Committing a
diff moves the store from representing a set to representing the diff's view
of it.  Each lookup, over a store that represents a set and with a diff
staged, answers from the view that asks for removals first.  So a staged
lookup and the lookup after the commit differ exactly at the outpoints which
the diff holds on both sides.
-/

namespace Htnd.ConsensusState.StagedReads

open Lib.RangeLoops Lib.OrderedStore Utxo.Entry Utxo.MutableDiff Utxo.UtxoSet
open UtxoKeys VirtualUtxoStore List ConsensusStateStore

/-- The database stores the set, and the cache agrees with it. -/
structure Represents (css : ConsensusStateStore) (base : UTXOSet) : Prop where
  stored : ∀ outpoint, css.database.lookup (css.utxoKey outpoint) =
    (base outpoint).map serializeUTXOEntry
  cached : ∀ outpoint entry, css.virtualUTXOSetCache.get outpoint = some entry →
    base outpoint = some entry

theorem utxoKey_inj {css : ConsensusStateStore} {first second : DomainOutpoint} :
    css.utxoKey first = css.utxoKey second ↔ first = second := by
  constructor
  · intro same
    exact outpoint_injective (append_cancel_left same)
  · rintro rfl
    rfl

/-! ## The cache -/

theorem get_remove (lru : LRUCache) (point other : DomainOutpoint) : (lru.remove point).get other =
      if other = point then none else lru.get other :=
  erase_ite lru.cache point other

variable {point : DomainOutpoint} {ordered : List OrderedVirtualUTXOKey}
  {outpoints : List DomainOutpoint} {item : OrderedVirtualUTXOKey} {staged : Option UTXODiff}

/-- Eviction only forgets. -/
theorem get_of_evictRandom {lru : LRUCache} {entry : UTXOEntry}
    (found : lru.evictRandom.get point = some entry) : lru.get point = some entry := by
  have erased := erase_ite lru.cache (lru.victims 0) point
  rw [LRUCache.get, LRUCache.evictRandom, erased] at found
  split_ifs at found
  exact found

/-- What is found after an addition was just added or was there before. -/
theorem get_of_add {lru : LRUCache} {point other : DomainOutpoint} {entry found : UTXOEntry}
    (isFound : (lru.add point entry).get other = some found) :
    (if other = point then some entry else lru.get other) = some found := by
  have put := insert_ite lru.cache point other entry
  have there : LRUCache.get { lru with cache := lru.cache.insert point entry }
        other = some found := by
    rw [LRUCache.add] at isFound
    split_ifs at isFound
    · exact get_of_evictRandom isFound
    · exact isFound
  exact put.symm.trans there

/-! ## Committing a diff -/

namespace Represents

variable {css : ConsensusStateStore} {base : UTXOSet}

section

variable (represents : Represents css base)

include represents

theorem of_eq {other : UTXOSet} (same : ∀ point, base point = other point) : Represents css other :=
  funext same ▸ represents

theorem remove (point : DomainOutpoint) : Represents { css with
        virtualUTXOSetCache := css.virtualUTXOSetCache.remove point
        database := css.database.erase (css.utxoKey point) }
      (fun other => if other = point then none else base other) where
  stored other := by
    have erased := erase_ite css.database (css.utxoKey point) (css.utxoKey other)
    simp only [utxoKey_inj] at erased
    refine erased.trans ?_
    split_ifs
    · rfl
    · exact represents.stored other
  cached other entry found := by
    rw [get_remove] at found
    split_ifs at found ⊢ with same
    exact represents.cached other entry found

theorem add (point : DomainOutpoint) (entry : UTXOEntry) : Represents { css with
        virtualUTXOSetCache := css.virtualUTXOSetCache.add point entry
        database := css.database.insert (css.utxoKey point) (serializeUTXOEntry entry) }
      (fun other =>
        if other = point then some entry else base other) where
  stored other := by
    have put := insert_ite css.database
      (css.utxoKey point) (css.utxoKey other) (serializeUTXOEntry entry)
    simp only [utxoKey_inj] at put
    refine put.trans ?_
    split_ifs
    · rfl
    · exact represents.stored other
  cached other found isFound := by
    have there := get_of_add isFound
    split_ifs at there ⊢ with same
    · exact there
    · exact represents.cached other found there

/-- A loop that writes at one outpoint after the other. -/
theorem foldl {write : ConsensusStateStore → ((_ : DomainOutpoint) × UTXOEntry) →
      ConsensusStateStore} {written : UTXOEntry → Option UTXOEntry}
      (writes : ∀ {css base}, Represents css base → ∀ key entry,
      Represents (write css ⟨key, entry⟩) fun point =>
        if point = key then written entry else base point)
    {items : List ((_ : DomainOutpoint) × UTXOEntry)}
    (nodup : items.NodupKeys) : Represents (items.foldl write css)
      fun point => (items.dlookup point).elim (base point) written := by
  induction items generalizing css base with
  | nil => exact represents
  | cons item rest ih =>
    rcases item with ⟨key, entry⟩
    rw [nodupKeys_cons] at nodup
    refine (ih (writes represents key entry) nodup.2).of_eq fun point => ?_
    by_cases same : point = key
    · subst same
      rw [dlookup_cons_eq, if_pos rfl, dlookup_eq_none.mpr nodup.1]
      rfl
    · rw [dlookup_cons_ne _ _ same, if_neg same]

theorem commitRemovals (gone : UTXOCollection) : Represents (css.commitRemovals gone) (fun point =>
        if gone.contains point then none else base point) := by
  refine of_eq (represents.foldl (fun held key _ => held.remove key) gone.nodupKeys) fun point => ?_
  change _ = if (gone.entries.dlookup point).isSome then _ else _
  cases gone.entries.dlookup point with
  | none | some => rfl

theorem commitAdditions (toAdd : UTXOCollection) : Represents (css.commitAdditions toAdd)
    (fun point => (toAdd.get point).or (base point)) := by
  refine of_eq (represents.foldl (fun held key entry => held.add key entry)
    toAdd.nodupKeys) fun point => ?_
  change _ = (toAdd.entries.dlookup point).or _
  cases toAdd.entries.dlookup point with
  | none | some => rfl

theorem commit (diff : UTXODiff) :
    Represents (css.commitVirtualUTXODiff (some diff)) (diff.view base) := by
  refine ((represents.commitRemovals diff.toRemove).commitAdditions
    diff.toAdd).of_eq fun point => ?_
  rw [UTXODiff.view, UTXODiff.cell, UTXOCollection.contains]
  cases diff.toAdd.get point with
  | some entry => rfl
  | none => cases diff.toRemove.get point <;> rfl

end

end Represents

/-- A commit leaves the keys as they are. -/
theorem utxoKey_commit (css : ConsensusStateStore) (diff : UTXODiff) :
    (css.commitVirtualUTXODiff (some diff)).utxoKey = css.utxoKey := by
  have loop : ∀ (step : ConsensusStateStore → ((_ : DomainOutpoint) × UTXOEntry) →
        ConsensusStateStore), (∀ css item, (step css item).utxoSetKeyPrefix = css.utxoSetKeyPrefix)
        → ∀ (items : List ((_ : DomainOutpoint) × UTXOEntry)) css,
        (items.foldl step css).utxoSetKeyPrefix = css.utxoSetKeyPrefix := by
    intro step keeps items
    induction items with
    | nil => exact fun css => rfl
    | cons item rest ih => exact fun css => (ih (step css item)).trans (keeps css item)
  funext point
  rw [utxoKey, commitVirtualUTXODiff, commitAdditions, loop, commitRemovals, loop]
  · rfl
  · exact fun _ _ => rfl
  · exact fun _ _ => rfl

/-! ## Single lookups -/

/-- The set the lookups answer from. -/
def readView : Option UTXODiff → UTXOSet → UTXOSet
  | none, base => base
  | some diff, base => diff.removalsFirstView base

theorem readView_eq (staged : Option UTXODiff) (base : UTXOSet) (point : DomainOutpoint) :
    readView staged base point = (ConsensusStateStore.fromStaged staged point).getD
    (base point) := by
  cases staged with
  | none => rfl
  | some diff =>
    rw [readView, UTXODiff.removalsFirstView, fromStaged]
    split_ifs
    · rfl
    · cases diff.toAdd.get point <;> rfl

variable {css : ConsensusStateStore} {base : UTXOSet}

theorem hasUTXOByOutpoint_eq (represents : Represents css base) (staged : Option UTXODiff)
    (point : DomainOutpoint) : css.hasUTXOByOutpoint staged point =
    (readView staged base point).isSome := by
  rw [hasUTXOByOutpoint, readView_eq]
  cases fromStaged staged point with
  | some answer => rfl
  | none => rw [represents.stored, Option.isSome_map, Option.getD_none]

variable (decoder : EntryDecoder) (score : UInt64)

theorem deserializeValue_serialize (entry : UTXOEntry) :
    ConsensusStateStore.deserializeValue decoder (serializeUTXOEntry entry) = .ok entry := by
  rw [deserializeValue, decoder.decode_serialize]

/--
A lookup answers from the set and, whether or not it fills the cache, leaves a
store that represents the same set.
-/
theorem lookupUTXO_spec (represents : Represents css base) (staged : Option UTXODiff)
    (point : DomainOutpoint) (populate : Bool) : (css.lookupUTXO decoder staged point populate).2 =
    .ok (readView staged base point) ∧ Represents (css.lookupUTXO decoder staged point populate).1
        base := by
  rw [lookupUTXO, readView_eq]
  cases fromStaged staged point with
  | some answer => exact ⟨rfl, represents⟩
  | none =>
    cases inCache : css.virtualUTXOSetCache.get point with
    | some entry =>
      refine ⟨?_, represents⟩
      rw [Option.getD_none, represents.cached point entry inCache]
    | none =>
      have stored := represents.stored point
      rw [stored]
      cases held : base point with
      | none => exact ⟨rfl, represents⟩
      | some entry =>
        rw [Option.map_some]
        dsimp only
        rw [deserializeValue_serialize]
        cases populate with
        | false => exact ⟨rfl, represents⟩
        | true =>
          refine ⟨rfl, represents.stored, fun other found isFound => ?_⟩
          have there := get_of_add isFound
          split_ifs at there with same
          · rw [same, held, there]
          · exact represents.cached other found there

/-! ## The bulk lookup -/

/--
What `PrepareOrderedVirtualUTXOKeys` promises: the keys of the outpoints, each
with its index, in increasing order.
-/
structure Prepared (css : ConsensusStateStore) (outpoints : List DomainOutpoint)
    (ordered : List OrderedVirtualUTXOKey) : Prop where
  sorted : ordered.Pairwise fun first second => first.key ≤ second.key
  keys : ordered.Perm ((outpoints.map css.utxoKey).zipIdx.map fun item => ⟨item.2, item.1⟩)

theorem Prepared.commit {css : ConsensusStateStore} (prepared : Prepared css outpoints ordered)
    (diff : UTXODiff) : Prepared (css.commitVirtualUTXODiff (some diff)) outpoints ordered where
  sorted := prepared.sorted
  keys := by
    rw [utxoKey_commit]
    exact prepared.keys

theorem cursorUpper_cases {last upper : List UInt8} (isUpper : css.cursorUpper last = some upper) :
    keySuccessor last = some upper ∨ prefixLimit css.utxoSetKeyPrefix = some upper := by
  rw [cursorUpper] at isUpper
  cases successor : keySuccessor last with
  | none =>
    rw [successor] at isUpper
    exact .inr isUpper
  | some _ =>
    cases limit : prefixLimit css.utxoSetKeyPrefix with
    | none =>
      rw [successor, limit] at isUpper
      exact .inl isUpper
    | some _ =>
      rw [successor, limit] at isUpper
      dsimp only at isUpper
      split_ifs at isUpper
      · exact .inr isUpper
      · exact .inl isUpper

theorem boundedUpper_cases {upper limit : Option (List UInt8)} {bound : List UInt8}
    (isBound : ConsensusStateStore.boundedUpper upper limit = some bound) :
    upper = some bound ∨ limit = some bound := by
  cases upper with
  | none => exact .inr isBound
  | some _ =>
    cases limit with
    | none => exact .inl isBound
    | some _ =>
      rw [boundedUpper] at isBound
      split_ifs at isBound
      · exact .inl isBound
      · exact .inr isBound

/-- The bounded cursor covers every key between its first and its last. -/
theorem covers_of_between {first last : List UInt8} (isCursorRanger : Bool)
    (above : first ≤ css.utxoKey point) (below : css.utxoKey point ≤ last) :
    (css.openBoundedUTXOCursor isCursorRanger first
      (css.cursorUpper last)).Covers (css.utxoKey point) := by
  have inBucket : css.utxoSetKeyPrefix ≤ css.utxoKey point := not_lt.mp (not_append_lt _ _)
  have underLimit : ∀ limit, prefixLimit css.utxoSetKeyPrefix = some limit →
      css.utxoKey point < limit := fun limit isLimit => append_lt_prefixLimit isLimit _
  cases isCursorRanger with
  | false => exact ⟨inBucket, underLimit⟩
  | true =>
    constructor
    · show (if css.utxoSetKeyPrefix < first then first
        else css.utxoSetKeyPrefix) ≤ css.utxoKey point
      split_ifs
      · exact above
      · exact inBucket
    · intro bound isBound
      rcases boundedUpper_cases isBound with isUpper | isLimit
      · rcases cursorUpper_cases isUpper with follows | isLimit
        · exact lt_of_le_of_lt below (lt_keySuccessor follows)
        · exact underLimit bound isLimit
      · exact underLimit bound isLimit

/-- A miss inside the range is answered from the database. -/
theorem readMiss_eq (represents : Represents css base) {range : KeyRange (List UInt8)}
    (preferred : Option (List (Option UTXOEntry))) {miss : OrderedVirtualUTXOKey}
    (isKey : miss.key = css.utxoKey point) (covered : range.Covers miss.key) :
    css.readMiss decoder range preferred miss = .ok (base point) := by
  have stored := represents.stored point
  rw [← isKey] at stored
  rw [readMiss]
  cases held : base point with
  | none =>
    rw [held] at stored
    have absent := AList.lookup_eq_none.mp stored
    cases meets : seek css.database range miss.key with
    | none => rfl
    | some foundKey =>
      dsimp only
      refine if_pos ?_
      rintro rfl
      rw [seek, List.min?_eq_some_iff] at meets
      exact absent (AList.mem_keys.mpr (List.mem_filter.mp meets.1).1)
  | some entry =>
    rw [held] at stored
    have there := AList.lookup_isSome.mp (by rw [stored]; rfl)
    rw [seek_of_present there covered]
    dsimp only
    rw [if_neg (not_not.mpr rfl), stored, Option.map_some]
    dsimp only
    rw [deserializeValue_serialize]
    cases preferred.bind fun entries => entries[miss.index]?.join with
    | none => rfl
    | some other =>
      dsimp only
      split_ifs with sameBytes
      · have decoded := congrArg decoder.decode sameBytes
        rw [decoder.decode_serialize, decoder.decode_serialize] at decoded
        rw [Option.some.inj decoded]
      · rfl

theorem withoutDatabase_cases (represents : Represents css base) (staged : Option UTXODiff)
    (point : DomainOutpoint) : css.withoutDatabase staged point =
    some (readView staged base point) ∨ (css.withoutDatabase staged point = none ∧
    readView staged base point = base point) := by
  rw [withoutDatabase, readView_eq]
  cases fromStaged staged point with
  | some answer => exact .inl rfl
  | none =>
    cases inCache : css.virtualUTXOSetCache.get point with
    | none => exact .inr ⟨rfl, rfl⟩
    | some entry =>
      left
      rw [Option.getD_none, represents.cached point entry inCache]
      rfl

/-- The item carries the index and the key of this outpoint. -/
def Asks (css : ConsensusStateStore) (outpoints : List DomainOutpoint)
    (item : OrderedVirtualUTXOKey) (outpoint : DomainOutpoint) : Prop :=
  outpoints[item.index]? = some outpoint ∧ item.key = css.utxoKey outpoint

def answerAt (staged : Option UTXODiff) (base : UTXOSet)
    (outpoints : List DomainOutpoint) (index : Nat) : Option UTXOEntry :=
  outpoints[index]?.bind (readView staged base)

theorem answerAt_of_asks (asks : Asks css outpoints item point) :
    answerAt staged base outpoints item.index = readView staged base point := by
  rw [answerAt, asks.1, Option.bind_some]

/--
The outcome of the first loop.  A slot holds the right answer, or nothing and
stands for a miss, or no item asked for it and it is unchanged.
-/
structure Collected (css : ConsensusStateStore) (staged : Option UTXODiff)
    (base : UTXOSet) (outpoints : List DomainOutpoint) (items : List OrderedVirtualUTXOKey)
    (entries result : List (Option UTXOEntry)) (misses : List OrderedVirtualUTXOKey) : Prop where
  length_eq : result.length = entries.length
  sublist : misses.Sublist items
  missed : ∀ miss ∈ misses, ∃ outpoint, Asks css outpoints miss outpoint ∧
    readView staged base outpoint = base outpoint
  slot : ∀ index < entries.length, result[index]? = some (answerAt staged base outpoints index) ∨
    (result[index]? = some none ∧ ∃ miss ∈ misses, miss.index = index) ∨
    (result[index]? = entries[index]? ∧ ∀ item ∈ items, item.index ≠ index)

variable {misses rest : List OrderedVirtualUTXOKey} {entries result : List (Option UTXOEntry)}

theorem Collected.known (taken : Collected css staged base outpoints rest
      (entries.set item.index (answerAt staged base outpoints item.index)) result misses) :
    Collected css staged base outpoints (item :: rest) entries result misses where
  length_eq := taken.length_eq.trans length_set
  sublist := taken.sublist.cons item
  missed := taken.missed
  slot index inRange := by
    rcases taken.slot index (by rwa [length_set]) with
      answered | missed | ⟨kept, notAsked⟩
    · exact .inl answered
    · exact .inr (.inl missed)
    by_cases same : item.index = index
    · left
      rw [kept, same, List.getElem?_set_self inRange]
    · right
      right
      rw [kept, List.getElem?_set_ne same]
      exact ⟨rfl, forall_mem_cons.mpr ⟨same, notAsked⟩⟩

theorem Collected.miss (asks : Asks css outpoints item point)
    (fromBase : readView staged base point = base point)
    (taken : Collected css staged base outpoints rest (entries.set item.index none) result misses) :
    Collected css staged base outpoints (item :: rest) entries result (item :: misses) where
  length_eq := taken.length_eq.trans length_set
  sublist := taken.sublist.cons_cons item
  missed := forall_mem_cons.mpr ⟨⟨point, asks, fromBase⟩, taken.missed⟩
  slot index inRange := by
    rcases taken.slot index (by rwa [length_set]) with
      answered | ⟨empty, miss, mem, isIndex⟩ | ⟨kept, notAsked⟩
    · exact .inl answered
    · exact .inr (.inl ⟨empty, miss, .tail item mem, isIndex⟩)
    by_cases same : item.index = index
    · right
      left
      rw [kept, same, List.getElem?_set_self inRange]
      exact ⟨rfl, item, .head _, same⟩
    · right
      right
      rw [kept, List.getElem?_set_ne same]
      exact ⟨rfl, forall_mem_cons.mpr ⟨same, notAsked⟩⟩

theorem collectMisses_spec (represents : Represents css base) (staged : Option UTXODiff)
    {items : List OrderedVirtualUTXOKey} (asked : ∀ item ∈ items, ∃ point,
    Asks css outpoints item point) (entries : List (Option UTXOEntry)) : ∃ result misses,
    css.collectMisses staged outpoints items entries = .ok (result, misses) ∧
    Collected css staged base outpoints items entries result misses := by
  induction items generalizing entries with
  | nil =>
    refine ⟨entries, [], rfl, rfl, List.Sublist.refl [], ?_, ?_⟩
    · exact nofun
    · exact fun index _ => .inr (.inr ⟨rfl, nofun⟩)
  | cons item rest ih =>
    have restAsked : ∀ item ∈ rest, ∃ point, Asks css outpoints item point :=
      fun other mem => asked other (.tail item mem)
    rcases asked item (.head _) with ⟨point, asks⟩
    rw [collectMisses, asks.1]
    dsimp only
    rcases withoutDatabase_cases represents staged point with
      known | ⟨unknown, fromBase⟩
    · rcases ih restAsked (entries.set item.index (answerAt staged base outpoints item.index)) with
        ⟨result, misses, run, taken⟩
      refine ⟨result, misses, ?_, taken.known⟩
      rw [known, ← answerAt_of_asks asks]
      exact run
    · rcases ih restAsked (entries.set item.index none) with ⟨result, misses, run, taken⟩
      refine ⟨result, item :: misses, ?_, taken.miss asks fromBase⟩
      rw [unknown]
      rw [run]
      rfl

/--
The second loop: if every slot is right or stands for a miss that is still to
be read, then every slot is right at the end.
-/
theorem fillMisses_spec (represents : Represents css base) (range : KeyRange (List UInt8))
    (preferred : Option (List (Option UTXOEntry))) (missed : ∀ miss ∈ misses, ∃ point,
    Asks css outpoints miss point ∧ readView staged base point = base point)
    (covered : ∀ miss ∈ misses, range.Covers miss.key)
    (length_eq : entries.length = outpoints.length) (slot : ∀ index < entries.length,
    entries[index]? = some (answerAt staged base outpoints index) ∨
    (entries[index]? = some none ∧ ∃ miss ∈ misses, miss.index = index)) :
    css.fillMisses decoder range preferred misses entries =
    .ok (outpoints.map (readView staged base)) := by
  induction misses generalizing entries with
  | nil =>
    have right : entries = outpoints.map (readView staged base) := by
      apply ext_getElem?
      intro index
      by_cases inRange : index < entries.length
      · rcases slot index inRange with answered | ⟨-, miss, impossible, -⟩
        · have inOutpoints : index < outpoints.length := by omega
          rw [answered, answerAt, List.getElem?_map, List.getElem?_eq_getElem inOutpoints]
          rfl
        · cases impossible
      · rw [List.getElem?_eq_none (by omega), List.getElem?_eq_none]
        rw [length_map]
        omega
    rw [fillMisses, right]
  | cons miss rest ih =>
    rcases missed miss (.head _) with ⟨point, asks, fromBase⟩
    have restMissed := fun other mem => missed other (.tail miss mem)
    have restCovered := fun other mem => covered other (.tail miss mem)
    rw [fillMisses, readMiss_eq decoder represents preferred asks.2 (covered miss (.head _))]
    have answer := (answerAt_of_asks asks).trans fromBase
    cases held : base point with
    | none =>
      refine ih restMissed restCovered length_eq ?_
      intro index inRange
      rcases slot index inRange with answered | ⟨empty, other, mem, isIndex⟩
      · exact .inl answered
      · rcases mem_cons.mp mem with rfl | inRest
        · left
          rw [empty, ← isIndex, answer, held]
        · exact .inr ⟨empty, other, inRest, isIndex⟩
    | some entry =>
      refine ih restMissed restCovered (length_set.trans length_eq) ?_
      intro index inRange
      rw [length_set] at inRange
      by_cases same : miss.index = index
      · left
        rw [← same, answer, held]
        exact List.getElem?_set_self (by omega)
      rw [List.getElem?_set_ne same]
      rcases slot index inRange with answered | ⟨empty, other, mem, isIndex⟩
      · exact .inl answered
      · rcases mem_cons.mp mem with rfl | inRest
        · exact absurd isIndex same
        · exact .inr ⟨empty, other, inRest, isIndex⟩

theorem Prepared.asked (prepared : Prepared css outpoints ordered) :
    ∀ item ∈ ordered, ∃ point, Asks css outpoints item point := by
  intro item mem
  rcases mem_map.mp (prepared.keys.mem_iff.mp mem) with ⟨⟨_, _⟩, isKey, rfl⟩
  have atIndex := mem_zipIdx_iff_getElem?.mp isKey
  rw [List.getElem?_map, Option.map_eq_some_iff] at atIndex
  rcases atIndex with ⟨point, isOutpoint, rfl⟩
  exact ⟨point, isOutpoint, rfl⟩

theorem Prepared.exists_index (prepared : Prepared css outpoints ordered)
    {index : Nat} (inRange : index < outpoints.length) : ∃ item ∈ ordered, item.index = index := by
  refine ⟨⟨index, css.utxoKey (outpoints[index])⟩, ?_, rfl⟩
  rw [prepared.keys.mem_iff, mem_map]
  refine ⟨(css.utxoKey (outpoints[index]), index), ?_, rfl⟩
  rw [mem_zipIdx_iff_getElem?, List.getElem?_map, List.getElem?_eq_getElem]
  rfl

/-- In a sorted list every key lies between the first and the last. -/
theorem between_of_sorted {first last : OrderedVirtualUTXOKey}
    (sorted : misses.Pairwise fun first second => first.key ≤ second.key)
    (isFirst : misses.head? = some first) (isLast : misses.getLast? = some last)
    {miss : OrderedVirtualUTXOKey} (mem : miss ∈ misses) :
    first.key ≤ miss.key ∧ miss.key ≤ last.key := by
  constructor
  · rcases List.head?_eq_some_iff.mp isFirst with ⟨_, rfl⟩
    rcases mem_cons.mp mem with rfl | later
    · exact le_refl _
    · exact (pairwise_cons.mp sorted).1 miss later
  · rcases List.getLast?_eq_some_iff.mp isLast with ⟨_, rfl⟩
    rcases mem_append.mp mem with prior | isLast
    · exact (pairwise_append.mp sorted).2.2 miss prior last (.head _)
    · rw [mem_singleton.mp isLast]

/-- The bulk lookup answers every outpoint from the set. -/
theorem utxosByOrderedKeys_spec (represents : Represents css base) (isCursorRanger : Bool)
    (staged : Option UTXODiff) (prepared : Prepared css outpoints ordered)
    (entriesLength : entries.length = outpoints.length)
    {preferred : Option (List (Option UTXOEntry))}
    (preferredLength : ∀ list ∈ preferred, list.length = outpoints.length) :
    css.utxosByOrderedKeysWithoutPopulatingCache decoder isCursorRanger staged outpoints ordered
    entries preferred = .ok (outpoints.map (readView staged base)) := by
  rcases collectMisses_spec represents staged prepared.asked entries with
    ⟨result, misses, run, taken⟩
  have noMismatch : preferred.filter (·.length ≠ outpoints.length) = none := by
    rw [Option.filter_eq_none_iff]
    intro list isPreferred
    simpa using preferredLength list isPreferred
  have slot : ∀ index < result.length,
      result[index]? = some (answerAt staged base outpoints index) ∨
      (result[index]? = some none ∧ ∃ miss ∈ misses, miss.index = index) := by
    intro index _
    have inOutpoints : index < outpoints.length := by rwa [← entriesLength, ← taken.length_eq]
    rcases taken.slot index (by rwa [← taken.length_eq]) with
      answered | missed | ⟨-, notAsked⟩
    · exact .inl answered
    · exact .inr missed
    · rcases prepared.exists_index inOutpoints with ⟨item, mem, isIndex⟩
      exact absurd isIndex (notAsked item mem)
  have length_eq := taken.length_eq.trans entriesLength
  rw [utxosByOrderedKeysWithoutPopulatingCache, if_neg (not_not.mpr entriesLength), noMismatch]
  rw [run]
  dsimp only
  have fill := fun range covered => fillMisses_spec decoder represents
    range preferred taken.missed covered length_eq slot
  cases isFirst : misses.head? with
  | none =>
    have noMisses : misses = [] := List.head?_eq_none_iff.mp isFirst
    subst noMisses
    exact fill ⟨[], none⟩ nofun
  | some first =>
    cases isLast : misses.getLast? with
    | none =>
      rw [List.getLast?_eq_none_iff.mp isLast] at isFirst
      cases isFirst
    | some last =>
      refine fill _ fun miss mem => ?_
      rcases taken.missed miss mem with ⟨_, asks, -⟩
      have between := between_of_sorted (prepared.sorted.sublist taken.sublist) isFirst isLast mem
      rw [asks.2] at between ⊢
      exact covers_of_between isCursorRanger between.1 between.2

/-! ## Staged and committed reads -/

/--
Over a store that represents a set, each of the three lookups gives with the
diff staged what it gives after the commit, exactly where the diff does not
hold the outpoint on both sides; and the cache agrees with the database after
the commit whatever the diff is.
-/
theorem staged_reads_eq_committed_reads_iff (decoder : EntryDecoder)
    (css : ConsensusStateStore) (base : UTXOSet)
    (represents : Represents css base) (diff : UTXODiff) :
    let committed := css.commitVirtualUTXODiff (some diff)
    (∀ outpoint, css.hasUTXOByOutpoint (some diff) outpoint =
          committed.hasUTXOByOutpoint none outpoint ↔ ¬ diff.HoldsInBoth outpoint) ∧
    (∀ outpoint, (css.lookupUTXOByOutpoint decoder (some diff) outpoint).2 =
          (committed.lookupUTXOByOutpoint decoder none outpoint).2 ↔ ¬ diff.HoldsInBoth outpoint) ∧
    (∀ isCursorRanger outpoints ordered entries preferred, Prepared css outpoints ordered →
      entries.length = outpoints.length → (∀ list ∈ preferred, list.length = outpoints.length) →
      (css.utxosByOrderedKeysWithoutPopulatingCache decoder isCursorRanger (some diff) outpoints
      ordered entries preferred = committed.utxosByOrderedKeysWithoutPopulatingCache decoder
      isCursorRanger none outpoints ordered entries preferred ↔ ∀ outpoint ∈ outpoints,
      ¬ diff.HoldsInBoth outpoint)) ∧
    ∀ outpoint entry, committed.virtualUTXOSetCache.get outpoint = some entry →
      committed.database.lookup (committed.utxoKey outpoint) = some (serializeUTXOEntry entry) := by
  intro committed
  have after : Represents committed (diff.view base) := represents.commit diff
  refine ⟨fun outpoint => ?_, fun outpoint => ?_, ?_, ?_⟩
  · rw [hasUTXOByOutpoint_eq represents, hasUTXOByOutpoint_eq after]
    exact (diff.removalsFirst_iff base outpoint).2
  · rw [lookupUTXOByOutpoint, lookupUTXOByOutpoint,
      (lookupUTXO_spec decoder represents _ outpoint true).1,
      (lookupUTXO_spec decoder after none outpoint true).1, Except.ok.injEq]
    exact (diff.removalsFirst_iff base outpoint).1
  · intro isCursorRanger outpoints ordered entries preferred prepared entriesLength preferredLength
    rw [utxosByOrderedKeys_spec decoder represents isCursorRanger _ prepared
        entriesLength preferredLength, utxosByOrderedKeys_spec decoder after isCursorRanger _
        (prepared.commit diff) entriesLength preferredLength, Except.ok.injEq, map_inj_left]
    exact forall₂_congr fun outpoint _ => (diff.removalsFirst_iff base outpoint).1
  · intro outpoint entry found
    rw [after.stored, after.cached outpoint entry found]
    rfl

/-! ## A coin the diff restamps -/

/-- An empty cache of the given capacity that evicts a fixed outpoint. -/
def emptyCache (capacity : Int) : LRUCache := ⟨∅, capacity, fun _ => coinbaseOutpoint⟩

/-- A store whose database holds the coinbase coin at the given score. -/
def coinbaseStore (score : UInt64) : ConsensusStateStore :=
  ⟨emptyCache 2, [7], AList.singleton ([7] ++ serializeOutpoint coinbaseOutpoint)
    (serializeUTXOEntry (coinbaseCoin score))⟩

theorem coinbaseStore_represents : Represents (coinbaseStore score) (coinbaseSet score) where
  stored point := by
    have put := insert_ite (∅ : Database) ((coinbaseStore score).utxoKey coinbaseOutpoint)
      ((coinbaseStore score).utxoKey point) (serializeUTXOEntry (coinbaseCoin score))
    simp only [utxoKey_inj] at put
    refine put.trans ?_
    rw [coinbaseSet]
    split_ifs <;> rfl
  cached point entry found := by cases found

/-- The prepared keys for looking up the coin alone. -/
def coinbaseKeys : List OrderedVirtualUTXOKey := [⟨0, [7] ++ serializeOutpoint coinbaseOutpoint⟩]

/--
With the restamp from 5 to 7 staged, all three lookups report the coin absent;
once it is committed they report it, at score 7.
-/
theorem staged_restamp_hides_coin : let staged := some (restamp 5 7)
    let committed := (coinbaseStore 5).commitVirtualUTXODiff staged
    ((coinbaseStore 5).hasUTXOByOutpoint staged coinbaseOutpoint = false ∧
      committed.hasUTXOByOutpoint none coinbaseOutpoint = true) ∧
    (((coinbaseStore 5).lookupUTXOByOutpoint canonicalDecoder staged
        coinbaseOutpoint).2 = .ok none ∧ (committed.lookupUTXOByOutpoint canonicalDecoder none
        coinbaseOutpoint).2 = .ok (some (coinbaseCoin 7))) ∧
    (coinbaseStore 5).utxosByOrderedKeysWithoutPopulatingCache
        canonicalDecoder true staged [coinbaseOutpoint] coinbaseKeys [none] none = .ok [none] ∧
      committed.utxosByOrderedKeysWithoutPopulatingCache canonicalDecoder
        true none [coinbaseOutpoint] coinbaseKeys [none] none = .ok [some (coinbaseCoin 7)] :=
  ⟨⟨by decide, by decide⟩, ⟨rfl, rfl⟩, rfl, rfl⟩

/-- The diff that spends the coin and adds another one. -/
def payOn : UTXODiff :=
  ⟨AList.singleton ⟨.filled 2, 0⟩ (coinbaseCoin 6),
    AList.singleton coinbaseOutpoint (coinbaseCoin 5)⟩

/--
With the coin in the cache and the payment staged, the three lookups say what
they say after the commit.
-/
theorem staged_reads_eq_committed_reads_payOn :
    let css := ((coinbaseStore 5).lookupUTXOByOutpoint canonicalDecoder none coinbaseOutpoint).1
    let committed := css.commitVirtualUTXODiff (some payOn)
    let outpoints := [coinbaseOutpoint, ⟨.filled 2, 0⟩]
    let ordered := (outpoints.map css.utxoKey).zipIdx.map fun item => ⟨item.2, item.1⟩
    css.virtualUTXOSetCache.get coinbaseOutpoint = some (coinbaseCoin 5) ∧
      (∀ outpoint, css.hasUTXOByOutpoint (some payOn) outpoint = committed.hasUTXOByOutpoint none
      outpoint) ∧ (∀ outpoint, (css.lookupUTXOByOutpoint canonicalDecoder (some payOn) outpoint).2 =
      (committed.lookupUTXOByOutpoint canonicalDecoder none outpoint).2) ∧
      css.utxosByOrderedKeysWithoutPopulatingCache canonicalDecoder true (some payOn) outpoints
      ordered [none, none] none = committed.utxosByOrderedKeysWithoutPopulatingCache
      canonicalDecoder true none outpoints ordered [none, none] none := by
  intro css committed outpoints ordered
  have represents : Represents css (coinbaseSet 5) :=
    (lookupUTXO_spec canonicalDecoder (coinbaseStore_represents 5) none coinbaseOutpoint true).2
  have reads := staged_reads_eq_committed_reads_iff canonicalDecoder css _ represents payOn
  have free : ∀ outpoint, ¬ payOn.HoldsInBoth outpoint := by
    rintro outpoint ⟨removed, added⟩
    have isSpent : outpoint = coinbaseOutpoint := mem_singleton.mp (AList.lookup_isSome.mp removed)
    have isNew : outpoint = ⟨.filled 2, 0⟩ := mem_singleton.mp (AList.lookup_isSome.mp added)
    exact absurd (isSpent.symm.trans isNew) (by decide)
  refine ⟨rfl, fun outpoint => (reads.1 outpoint).mpr (free outpoint),
    fun outpoint => (reads.2.1 outpoint).mpr (free outpoint),
    (reads.2.2.1 true outpoints ordered _ none ⟨?_, List.Perm.refl _⟩ rfl nofun).mpr
    fun outpoint _ => free outpoint⟩
  decide

end Htnd.ConsensusState.StagedReads
