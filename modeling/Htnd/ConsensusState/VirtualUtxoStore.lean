import Htnd.Lib.OrderedStore
import Htnd.ConsensusState.UtxoKeys
import Htnd.Utxo.UtxoSet

/-!
# The virtual UTXO set in the consensus state store

The model of `consensusstatestore/utxo.go`.  Virtual's UTXO set is kept in the
database, with a cache in front of it.  While a block is processed the change
to the set is only staged: three lookups read through the staged diff, and
`commitVirtualUTXODiff` writes it to the cache and the database.
-/

namespace Htnd.ConsensusState.VirtualUtxoStore

open Lib.RangeLoops Lib.OrderedStore Utxo.Entry Utxo.MutableDiff
open UtxoKeys

/-! ## The cache -/

/--
`utxolrucache.LRUCache`.  The source evicts whichever key its map yields
first; `victims` is the arbitrary sequence of the keys evicted from now on.
-/
structure LRUCache where
  cache : FiniteMap DomainOutpoint UTXOEntry
  capacity : Int
  victims : Nat → DomainOutpoint

namespace LRUCache

def get (lru : LRUCache) (outpoint : DomainOutpoint) : Option UTXOEntry := lru.cache.lookup outpoint

def remove (lru : LRUCache) (outpoint : DomainOutpoint) : LRUCache :=
  { lru with cache := lru.cache.erase outpoint }

def evictRandom (lru : LRUCache) : LRUCache :=
  { lru with
    cache := lru.cache.erase (lru.victims 0)
    victims := fun round => lru.victims (round + 1) }

def add (lru : LRUCache) (outpoint : DomainOutpoint) (entry : UTXOEntry) :
    LRUCache :=
  let lru := { lru with cache := lru.cache.insert outpoint entry }
  if lru.capacity < lru.cache.entries.length then lru.evictRandom else lru

end LRUCache

/-! ## The store -/

/-- The database: full keys, bucket path included, and values. -/
abbrev Database := FiniteMap (List UInt8) (List UInt8)

inductive StoreError where
  | corruptEntry (value : List UInt8)
  | keyTooLong (outpoint : DomainOutpoint) (size : Nat)
  | entriesLength (entries outpoints : Nat)
  | preferredLength (preferred outpoints : Nat)
  | indexOutOfRange (index : Nat)
deriving DecidableEq

/-- `consensusStateStore` together with the database it reads and writes. -/
structure ConsensusStateStore where
  virtualUTXOSetCache : LRUCache
  utxoSetKeyPrefix : List UInt8
  database : Database

/-- `model.OrderedVirtualUTXOKey`: a key and the index of its outpoint. -/
structure OrderedVirtualUTXOKey where
  index : Nat
  key : List UInt8
deriving DecidableEq

namespace ConsensusStateStore

def utxoKey (css : ConsensusStateStore) (outpoint : DomainOutpoint) : List UInt8 :=
  css.utxoSetKeyPrefix ++ serializeOutpoint outpoint

/-- The loop of `commitVirtualUTXODiff` over the removals. -/
def commitRemovals (css : ConsensusStateStore) (toRemove : UTXOCollection) : ConsensusStateStore :=
  toRemove.entries.foldl
    (fun css item =>
      { css with
        virtualUTXOSetCache := css.virtualUTXOSetCache.remove item.1
        database := css.database.erase (css.utxoKey item.1) })
    css

/-- The loop of `commitVirtualUTXODiff` over the additions. -/
def commitAdditions (css : ConsensusStateStore) (toAdd : UTXOCollection) : ConsensusStateStore :=
  toAdd.entries.foldl
    (fun css item =>
      { css with
        virtualUTXOSetCache := css.virtualUTXOSetCache.add item.1 item.2
        database := css.database.insert (css.utxoKey item.1) (serializeUTXOEntry item.2) })
    css

def commitVirtualUTXODiff (css : ConsensusStateStore) : Option UTXODiff → ConsensusStateStore
  | none => css
  | some diff => (css.commitRemovals diff.toRemove).commitAdditions diff.toAdd

/-! ## Single lookups -/

/-- The answer the staged diff gives, if it decides the outpoint. -/
def fromStaged : Option UTXODiff → DomainOutpoint → Option (Option UTXOEntry)
  | none, _ => none
  | some diff, outpoint =>
    if diff.toRemove.contains outpoint then some none
    else (diff.toAdd.get outpoint).map some

/-- `HasUTXOByOutpoint`, which never asks the cache. -/
def hasUTXOByOutpoint (css : ConsensusStateStore) (staged : Option UTXODiff)
    (outpoint : DomainOutpoint) : Bool :=
  match fromStaged staged outpoint with
  | some answer => answer.isSome
  | none => (css.database.lookup (css.utxoKey outpoint)).isSome

/-- Decode a value read from the database. -/
def deserializeValue (decoder : EntryDecoder) (value : List UInt8) : Except StoreError UTXOEntry :=
  match decoder.decode value with
  | some entry => .ok entry
  | none => .error (.corruptEntry value)

/-- `lookupUTXO`: the store after the lookup, and the entry if there is one. -/
def lookupUTXO (decoder : EntryDecoder) (css : ConsensusStateStore)
    (staged : Option UTXODiff) (outpoint : DomainOutpoint) (populateCacheOnMiss : Bool) :
    ConsensusStateStore × Except StoreError (Option UTXOEntry) :=
  match fromStaged staged outpoint with
  | some answer => (css, .ok answer)
  | none =>
    match css.virtualUTXOSetCache.get outpoint with
    | some entry => (css, .ok (some entry))
    | none =>
      match css.database.lookup (css.utxoKey outpoint) with
      | none => (css, .ok none)
      | some value =>
        match deserializeValue decoder value with
        | .error err => (css, .error err)
        | .ok entry =>
          if populateCacheOnMiss then
            ({ css with
              virtualUTXOSetCache := css.virtualUTXOSetCache.add outpoint entry },
              .ok (some entry))
          else (css, .ok (some entry))

def lookupUTXOByOutpoint (decoder : EntryDecoder)
    (css : ConsensusStateStore) (staged : Option UTXODiff) (outpoint : DomainOutpoint) :
    ConsensusStateStore × Except StoreError (Option UTXOEntry) :=
  css.lookupUTXO decoder staged outpoint true

/-! ## The bulk lookup -/

/-- `outpointKeyEncoder.append`: the encoded key, if it fits the buffer. -/
def encodeKey (css : ConsensusStateStore) (outpoint : DomainOutpoint) :
    Except StoreError (List UInt8) :=
  let size := (serializeOutpoint outpoint).length
  if maxOutpointSuffix < size then .error (.keyTooLong outpoint size)
  else .ok (css.utxoKey outpoint)

def prepareOrderedVirtualUTXOKeys (css : ConsensusStateStore) (outpoints : List DomainOutpoint) :
    Except StoreError (List OrderedVirtualUTXOKey) :=
  (outpoints.mapM css.encodeKey).map fun keys => (keys.zipIdx.map fun item =>
    OrderedVirtualUTXOKey.mk item.2 item.1).insertionSort fun first second => first.key ≤ second.key

def cursorUpper (css : ConsensusStateStore) (lastKey : List UInt8) : Option (List UInt8) :=
  match keySuccessor lastKey with
  | none => prefixLimit css.utxoSetKeyPrefix
  | some upper =>
    match prefixLimit css.utxoSetKeyPrefix with
    | none => some upper
    | some limit => if limit < upper then some limit else some upper

/-- The upper bound `CursorBounds` sets, from the asked one and the bucket's. -/
def boundedUpper : Option (List UInt8) → Option (List UInt8) → Option (List UInt8)
  | some upper, some limit => if upper < limit then some upper else some limit
  | some upper, none => some upper
  | none, limit => limit

/--
`openBoundedUTXOCursor`, `CursorRange` and `CursorBounds`: the range the
cursor is limited to.  A reader that offers no bounded cursor opens one over
the whole bucket.
-/
def openBoundedUTXOCursor (css : ConsensusStateStore) (isCursorRanger : Bool) (lower : List UInt8)
    (upper : Option (List UInt8)) : KeyRange (List UInt8) :=
  if isCursorRanger then
    ⟨if css.utxoSetKeyPrefix < lower then lower else css.utxoSetKeyPrefix,
      boundedUpper upper (prefixLimit css.utxoSetKeyPrefix)⟩
  else ⟨css.utxoSetKeyPrefix, prefixLimit css.utxoSetKeyPrefix⟩

/-- The answer to a lookup that needs no database read, if there is one. -/
def withoutDatabase (css : ConsensusStateStore) (staged : Option UTXODiff)
    (outpoint : DomainOutpoint) : Option (Option UTXOEntry) :=
  (fromStaged staged outpoint).or ((css.virtualUTXOSetCache.get outpoint).map some)

/--
The first loop of `UTXOsByOrderedKeysWithoutPopulatingCache`: the entries
known without the database, and the misses in order.
-/
def collectMisses (css : ConsensusStateStore) (staged : Option UTXODiff)
    (outpoints : List DomainOutpoint) : List OrderedVirtualUTXOKey → List (Option UTXOEntry) →
    Except StoreError (List (Option UTXOEntry) × List OrderedVirtualUTXOKey)
  | [], entries => .ok (entries, [])
  | item :: rest, entries =>
    match outpoints[item.index]? with
    | none => .error (.indexOutOfRange item.index)
    | some outpoint =>
      match css.withoutDatabase staged outpoint with
      | some answer => css.collectMisses staged outpoints rest (entries.set item.index answer)
      | none =>
        (css.collectMisses staged outpoints rest (entries.set item.index none)).map fun collected =>
          (collected.1, item :: collected.2)

/--
One miss: move the cursor, compare the key reached with the key asked for, and
decode the value unless the preferred entry has the same bytes.
-/
def readMiss (decoder : EntryDecoder) (css : ConsensusStateStore) (range : KeyRange (List UInt8))
    (preferred : Option (List (Option UTXOEntry)))
    (miss : OrderedVirtualUTXOKey) : Except StoreError (Option UTXOEntry) :=
  match seek css.database range miss.key with
  | none => .ok none
  | some foundKey =>
    if foundKey ≠ miss.key then .ok none
    else
      match css.database.lookup foundKey with
      | none => .ok none
      | some value =>
        match preferred.bind fun entries => entries[miss.index]?.join with
        | none => (deserializeValue decoder value).map some
        | some entry =>
          if serializeUTXOEntry entry = value then .ok (some entry)
          else (deserializeValue decoder value).map some

/-- The second loop. -/
def fillMisses (decoder : EntryDecoder) (css : ConsensusStateStore) (range : KeyRange (List UInt8))
    (preferred : Option (List (Option UTXOEntry))) : List OrderedVirtualUTXOKey →
    List (Option UTXOEntry) → Except StoreError (List (Option UTXOEntry))
  | [], entries => .ok entries
  | miss :: rest, entries =>
    match css.readMiss decoder range preferred miss with
    | .error err => .error err
    | .ok none => css.fillMisses decoder range preferred rest entries
    | .ok (some entry) =>
      css.fillMisses decoder range preferred rest (entries.set miss.index (some entry))

def utxosByOrderedKeysWithoutPopulatingCache (decoder : EntryDecoder) (css : ConsensusStateStore)
    (isCursorRanger : Bool) (staged : Option UTXODiff) (outpoints : List DomainOutpoint)
    (ordered : List OrderedVirtualUTXOKey) (entries : List (Option UTXOEntry))
    (preferred : Option (List (Option UTXOEntry))) : Except StoreError (List (Option UTXOEntry)) :=
  if entries.length ≠ outpoints.length then
    .error (.entriesLength entries.length outpoints.length)
  else
    match preferred.filter (·.length ≠ outpoints.length) with
    | some preferred => .error (.preferredLength preferred.length outpoints.length)
    | none =>
      match css.collectMisses staged outpoints ordered entries with
      | .error err => .error err
      | .ok (entries, misses) =>
        match misses.head?, misses.getLast? with
        | some first, some last =>
          css.fillMisses decoder (css.openBoundedUTXOCursor isCursorRanger first.key
            (css.cursorUpper last.key)) preferred misses entries
        | _, _ => .ok entries

end ConsensusStateStore

end Htnd.ConsensusState.VirtualUtxoStore
