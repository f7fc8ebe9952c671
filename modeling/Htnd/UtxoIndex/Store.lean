import Htnd.Utxo.MutableDiff
import Htnd.UtxoIndex.Keys

/-!
# The store of the UTXO index

Changes are staged by script and written in one commit.  The commit takes the
number of coins of each script and the circulating supply from what the
database holds, not from what the staged changes say: a change may repeat what
is stored already.  The answers of the index are read from the database.

The database accepts every write, and a transaction reads its own writes.  A
commit is given as the database it leaves, or the error on which the
transaction is rolled back.
-/

namespace Htnd.UtxoIndex.Store

open Lib.RangeLoops Lib.LittleEndian Utxo.Entry Utxo.MutableDiff
open ConsensusState.UtxoKeys Keys

/-- The errors of the store, with the messages the source writes itself. -/
inductive IndexError where
  | addedAlready (outpoint : DomainOutpoint)
  | removedAlready (outpoint : DomainOutpoint)
  | cannotDeserialize (bytes : List UInt8)
  | notFound (key : List UInt8)
  | countExceedsInt64 (count : UInt64)
  | countExceedsInt (count : UInt64)
  | stagingNotEmpty (message : String)
  | unfinished
deriving DecidableEq

abbrev UTXOOutpointEntryPairs := FiniteMap DomainOutpoint UTXOEntry

/-- Staged changes, grouped by script. -/
abbrev StagedPairs := FiniteMap ScriptPublicKeyString UTXOOutpointEntryPairs

structure UtxoIndexStore where
  database : Database
  toAdd : StagedPairs
  toRemove : StagedPairs
  virtualParents : List DomainHash

structure UTXOPair where
  outpoint : DomainOutpoint
  entry : UTXOEntry
deriving DecidableEq

def newUTXOIndexStore (database : Database) : UtxoIndexStore where
  database := database
  toAdd := ∅
  toRemove := ∅
  virtualParents := []

/-! ## Staging -/

/-- The pairs staged for a script; there are none if it has no entry. -/
def pairsOf (staged : StagedPairs) (key : ScriptPublicKeyString) :
    UTXOOutpointEntryPairs :=
  (staged.lookup key).getD ∅

/-- Stage a pair unless another entry is staged for its outpoint. -/
def stage (failure : DomainOutpoint → IndexError) (staged : StagedPairs)
    (key : ScriptPublicKeyString) (outpoint : DomainOutpoint)
    (utxoEntry : UTXOEntry) : Except IndexError StagedPairs :=
  match (pairsOf staged key).lookup outpoint with
  | some existing =>
    if existing = utxoEntry then .ok staged else .error (failure outpoint)
  | none => .ok (staged.insert key ((pairsOf staged key).insert outpoint utxoEntry))

/-- `add`: a staged removal of the same coin is taken back. -/
def add (uis : UtxoIndexStore) (scriptPublicKey : ScriptPublicKey)
    (outpoint : DomainOutpoint) (utxoEntry : UTXOEntry) : Except IndexError UtxoIndexStore :=
  let key := stringOf scriptPublicKey
  if (pairsOf uis.toRemove key).lookup outpoint = some utxoEntry then
    .ok { uis with
      toRemove := uis.toRemove.insert key ((pairsOf uis.toRemove key).erase outpoint) }
  else
    (stage .addedAlready uis.toAdd key outpoint utxoEntry).map fun toAdd =>
      { uis with toAdd := toAdd }

/-- `remove`: a staged addition of the same coin is taken back. -/
def remove (uis : UtxoIndexStore) (scriptPublicKey : ScriptPublicKey)
    (outpoint : DomainOutpoint) (utxoEntry : UTXOEntry) : Except IndexError UtxoIndexStore :=
  let key := stringOf scriptPublicKey
  if (pairsOf uis.toAdd key).lookup outpoint = some utxoEntry then
    .ok { uis with
      toAdd := uis.toAdd.insert key ((pairsOf uis.toAdd key).erase outpoint) }
  else
    (stage .removedAlready uis.toRemove key outpoint utxoEntry).map
      fun toRemove => { uis with toRemove := toRemove }

def updateVirtualParents (uis : UtxoIndexStore)
    (virtualParents : List DomainHash) : UtxoIndexStore :=
  { uis with virtualParents := virtualParents }

def discard (uis : UtxoIndexStore) : UtxoIndexStore :=
  { uis with toAdd := ∅, toRemove := ∅, virtualParents := [] }

def isAnythingStaged (uis : UtxoIndexStore) : Bool :=
  uis.toAdd.entries.length > 0 || uis.toRemove.entries.length > 0

/-- A staged pair with the script it is staged for. -/
structure StagedChange where
  key : ScriptPublicKeyString
  outpoint : DomainOutpoint
  entry : UTXOEntry

/-- The staged changes in the order of the two nested range loops. -/
def stagedChanges (staged : StagedPairs) : List StagedChange :=
  staged.entries.flatMap fun ofKey => ofKey.2.entries.map fun pair => ⟨ofKey.1, pair.1, pair.2⟩

/-! ## Numbers in the database -/

def serializeUint64 (value : UInt64) : List UInt8 := encode 8 value.toNat

def deserializeUint64 (valueBytes : List UInt8) : Except IndexError UInt64 :=
  if valueBytes.length ≠ 8 then .error (.cannotDeserialize valueBytes)
  else .ok (UInt64.ofNat (decode valueBytes))

def serializeHashes (hashes : List DomainHash) : List UInt8 :=
  encode 8 hashes.length ++ hashes.flatMap DomainHash.hashArray

/-- What a decoder returns, or its error. -/
def decoded {α : Type} (read : List UInt8 → Option α) (bytes : List UInt8) : Except IndexError α :=
  match read bytes with
  | some value => .ok value
  | none => .error (.cannotDeserialize bytes)

def storedUTXOAmount (decoders : Decoders) (database : Database)
    (key : List UInt8) : Except IndexError (Option UInt64) :=
  match database.lookup key with
  | none => .ok none
  | some serialized => (decoded decoders.amount serialized).map some

/-! ## Commit -/

/-- What a commit keeps while it goes through the staged changes. -/
structure Changes where
  database : Database
  countDeltas : FiniteMap ScriptPublicKeyString Int
  toAddSompiSupply : UInt64
  toRemoveSompiSupply : UInt64

/-- `countDeltas[key] += change`. -/
def addToCount (countDeltas : FiniteMap ScriptPublicKeyString Int)
    (key : ScriptPublicKeyString) (change : Int) : FiniteMap ScriptPublicKeyString Int :=
  countDeltas.insert key ((countDeltas.lookup key).getD 0 + change)

def keyOf (change : StagedChange) : List UInt8 :=
  convertOutpointToKey (bucketForScriptPublicKey (newScriptPublicKeyFromString change.key))
    change.outpoint

/-- One round of the loop over the staged removals. -/
def commitRemoval (decoders : Decoders) (toAdd : StagedPairs)
    (changes : Changes) (removal : StagedChange) : Except IndexError Changes :=
  if ((pairsOf toAdd removal.key).lookup removal.outpoint).isSome then
    .ok changes
  else
    (storedUTXOAmount decoders changes.database (keyOf removal)).map fun storedAmount =>
        match storedAmount with
        | none => changes
        | some amount =>
          { changes with
            database := changes.database.erase (keyOf removal)
            countDeltas := addToCount changes.countDeltas removal.key (-1)
            toRemoveSompiSupply := changes.toRemoveSompiSupply + amount }

/-- One round of the loop over the staged additions. -/
def commitAddition (decoders : Decoders) (changes : Changes)
    (addition : StagedChange) : Except IndexError Changes :=
  (storedUTXOAmount decoders changes.database (keyOf addition)).map fun storedAmount =>
      let put := changes.database.insert (keyOf addition) (serializeUTXOEntry addition.entry)
      let toAddSompiSupply := changes.toAddSompiSupply + addition.entry.amount
      match storedAmount with
      | some amount =>
        { changes with
          database := put
          toAddSompiSupply := toAddSompiSupply
          toRemoveSompiSupply := changes.toRemoveSompiSupply + amount }
      | none =>
        { changes with
          database := put
          countDeltas := addToCount changes.countDeltas addition.key 1
          toAddSompiSupply := toAddSompiSupply }

def updateCirculatingSompiSupply (database : Database)
    (toAddSompiSupply toRemoveSompiSupply : UInt64) : Except IndexError Database :=
  if toAddSompiSupply ≠ toRemoveSompiSupply then
    match database.lookup circulatingSupplyKey with
    | none => .error (.notFound circulatingSupplyKey)
    | some circulatingSupplyBytes =>
      (deserializeUint64 circulatingSupplyBytes).map fun circulatingSupply => database.insert
        circulatingSupplyKey (serializeUint64
        (circulatingSupply + toAddSompiSupply - toRemoveSompiSupply))
  else .ok database

/-- The count stored under a key, zero if there is none. -/
def storedCount (database : Database) (countKey : List UInt8) : Except IndexError UInt64 :=
  match database.lookup countKey with
  | none => .ok 0
  | some countBytes => deserializeUint64 countBytes

/-- One round of `applyUTXOCountDeltas`; the new count is an `int64`. -/
def applyUTXOCountDelta (database : Database)
    (item : (_ : ScriptPublicKeyString) × Int) : Except IndexError Database :=
  if item.2 = 0 then .ok database
  else
    let countKey := utxoCountKeyForScriptPublicKey (newScriptPublicKeyFromString item.1)
    storedCount database countKey >>= fun currentCount =>
      if currentCount.toNat ≥ 2 ^ 63 then
        .error (.countExceedsInt64 currentCount)
      else
        let newCount := ((currentCount.toNat : Int) + item.2).bmod (2 ^ 64)
        if newCount ≤ 0 then .ok (database.erase countKey)
        else
          .ok (database.insert countKey (serializeUint64 (UInt64.ofNat newCount.toNat)))

def applyUTXOCountDeltas (database : Database) (countDeltas : FiniteMap ScriptPublicKeyString Int) :
    Except IndexError Database :=
  countDeltas.entries.foldlM applyUTXOCountDelta database

/-- What a commit writes after the coins. -/
def commitAccounts (changes : Changes) (virtualParents : List DomainHash) :
    Except IndexError Database :=
  updateCirculatingSompiSupply (changes.database.insert virtualParentsKey
      (serializeHashes virtualParents)) changes.toAddSompiSupply changes.toRemoveSompiSupply >>=
      fun database => (applyUTXOCountDeltas database changes.countDeltas).map fun database =>
      database.insert utxoCountsInitializedKey [1]

/-- Write what is staged and discard it. -/
def commit (decoders : Decoders) (uis : UtxoIndexStore) : Except IndexError UtxoIndexStore :=
  (stagedChanges uis.toRemove).foldlM (commitRemoval decoders uis.toAdd)
      ⟨uis.database, ∅, 0, 0⟩ >>= fun removed =>
    (stagedChanges uis.toAdd).foldlM (commitAddition decoders) removed >>=
      fun added =>
        (commitAccounts added uis.virtualParents).map fun database =>
          discard { uis with database := database }

/-! ## Rebuilding -/

/-- Delete what a cursor over the bucket lists. -/
def deleteBucket (database : Database) (bucket : Bucket) : Database :=
  (cursor database bucket).foldl (fun result item => result.erase (bucket.key item.1)) database

def deleteAll (database : Database) : Database :=
  deleteBucket (deleteBucket ((((database.erase virtualParentsKey).erase needsResetKey).erase
    circulatingSupplyKey).erase utxoCountsInitializedKey) utxoIndexCountsBucket) utxoIndexBucket

/-- The sum of the amounts a cursor lists. -/
def sumAmounts (decoders : Decoders)
    (items : List (List UInt8 × List UInt8)) : Except IndexError UInt64 :=
  items.foldlM (fun sum item => (decoded decoders.amount item.2).map (sum + ·)) 0

def initializeCirculatingSompiSupply (decoders : Decoders)
    (database : Database) : Except IndexError Database :=
  (sumAmounts decoders (cursor database utxoIndexBucket)).map fun sum =>
    database.insert circulatingSupplyKey (serializeUint64 sum)

def additionOf (pair : UTXOPair) : StagedChange :=
  ⟨stringOf pair.entry.scriptPublicKey, pair.outpoint, pair.entry⟩

/--
One pair of a page.  The source writes the pairs of a page concurrently; here
they are written in the order of the page.
-/
def addPair (changes : Changes) (pair : UTXOPair) : Changes :=
  { changes with
    database := changes.database.insert (keyOf (additionOf pair)) (serializeUTXOEntry pair.entry)
    countDeltas := addToCount changes.countDeltas (stringOf pair.entry.scriptPublicKey) 1
    toAddSompiSupply := changes.toAddSompiSupply + pair.entry.amount }

def addAndCommitOutpointsWithoutTransaction (database : Database)
    (utxoPairs : List UTXOPair) : Except IndexError Database :=
  let changes := utxoPairs.foldl addPair ⟨database, ∅, 0, 0⟩
  applyUTXOCountDeltas changes.database changes.countDeltas >>= fun database =>
    updateCirculatingSompiSupply (database.insert utxoCountsInitializedKey [1])
    changes.toAddSompiSupply 0

def updateAndCommitVirtualParentsWithoutTransaction (database : Database)
    (virtualParents : List DomainHash) : Database :=
  (database.insert virtualParentsKey (serializeHashes virtualParents)).insert
    utxoCountsInitializedKey [1]

/-- `GetVirtualUTXOs`: up to `limit` pairs after the given outpoint. -/
def getVirtualUTXOs (virtualUTXOs : List UTXOPair)
    (fromOutpoint : Option DomainOutpoint) (limit : Nat) : List UTXOPair :=
  match fromOutpoint with
  | none => virtualUTXOs.take limit
  | some outpoint =>
    ((virtualUTXOs.dropWhile fun pair => pair.outpoint ≠ outpoint).drop 1).take limit

/-- `step` of `Reset`. -/
def pageSize : Nat := 1000

/-- The loop of `Reset` over the pages of virtual's UTXO set. -/
def resetPages (virtualUTXOs : List UTXOPair) :
    Nat → Option DomainOutpoint → Database → Except IndexError Database
  | 0, _, _ => .error .unfinished
  | rounds + 1, fromOutpoint, database =>
    let page := getVirtualUTXOs virtualUTXOs fromOutpoint pageSize
    addAndCommitOutpointsWithoutTransaction database page >>= fun database =>
        if page.length < pageSize then .ok database
        else
          resetPages virtualUTXOs rounds (page.getLast?.map (·.outpoint)) database

/-- `Reset`, while virtual does not move. -/
def reset (decoders : Decoders) (virtualUTXOs : List UTXOPair)
    (virtualParents : List DomainHash) (uis : UtxoIndexStore) : Except IndexError UtxoIndexStore :=
  initializeCirculatingSompiSupply decoders (deleteAll uis.database) >>=
    fun database =>
      (resetPages virtualUTXOs (virtualUTXOs.length + 1) none database).map
        fun database =>
          { uis with
            database := updateAndCommitVirtualParentsWithoutTransaction database virtualParents }

/-! ## Updating -/

def addUTXOs (uis : UtxoIndexStore) (toAdd : UTXOCollection) : Except IndexError UtxoIndexStore :=
  toAdd.entries.foldlM (fun uis pair => add uis pair.2.scriptPublicKey pair.1 pair.2) uis

def removeUTXOs (uis : UtxoIndexStore) (toRemove : UTXOCollection) :
    Except IndexError UtxoIndexStore :=
  toRemove.entries.foldlM (fun uis pair => remove uis pair.2.scriptPublicKey pair.1 pair.2) uis

def markNeedsReset (uis : UtxoIndexStore) : UtxoIndexStore :=
  { uis with database := uis.database.insert needsResetKey [1] }

/-- `externalapi.VirtualChangeSet`, as far as the index reads it. -/
structure VirtualChangeSet where
  virtualUTXODiff : UTXODiff
  virtualParents : List DomainHash
  earlierChangeSetsDropped : Bool

def update (decoders : Decoders) (virtualChangeSet : VirtualChangeSet)
    (uis : UtxoIndexStore) : Except IndexError UtxoIndexStore :=
  let marked :=
    if virtualChangeSet.earlierChangeSetsDropped then markNeedsReset uis
    else uis
  removeUTXOs marked virtualChangeSet.virtualUTXODiff.toRemove >>= fun removed => addUTXOs removed
    virtualChangeSet.virtualUTXODiff.toAdd >>= fun added => commit decoders
    (updateVirtualParents added virtualChangeSet.virtualParents)

/-! ## Answers -/

/-- Refuse to answer while changes are staged. -/
def whenNothingStaged {α : Type} (uis : UtxoIndexStore) (message : String)
    (answer : Except IndexError α) : Except IndexError α :=
  if isAnythingStaged uis then .error (.stagingNotEmpty message) else answer

/-- The loop of `UTXOs`; the limit zero is no limit. -/
def readPairs (decoders : Decoders) (limit : Nat) : List (List UInt8 × List UInt8) → List UTXOPair →
    Except IndexError (List UTXOPair)
  | [], slice => .ok slice
  | item :: rest, slice =>
    decoded decoders.outpoint item.1 >>= fun outpoint =>
      decoded decoders.decode item.2 >>= fun utxoEntry =>
        let extended := slice ++ [⟨outpoint, utxoEntry⟩]
        if 0 < limit ∧ limit ≤ extended.length then .ok extended
        else readPairs decoders limit rest extended

/-- The size `UTXOs` gives its buffer. -/
def sizeOfUTXOs (uis : UtxoIndexStore) (scriptPublicKey : ScriptPublicKey)
    (limit : UInt32) : Except IndexError Nat :=
  if limit = 0 then
    storedCount uis.database (utxoCountKeyForScriptPublicKey scriptPublicKey) >>= fun count =>
      if count.toNat ≥ 2 ^ 63 then .error (.countExceedsInt count)
      else .ok count.toNat
  else .ok limit.toNat

def utxos (decoders : Decoders) (uis : UtxoIndexStore)
    (scriptPublicKey : ScriptPublicKey) (limit : UInt32) : Except IndexError (List UTXOPair) :=
  whenNothingStaged uis "cannot get UTXOs while staging isn't empty"
    (sizeOfUTXOs uis scriptPublicKey limit >>= fun _ => readPairs decoders limit.toNat
        (cursor uis.database (bucketForScriptPublicKey scriptPublicKey)) [])

def hasUTXOs (uis : UtxoIndexStore) (scriptPublicKey : ScriptPublicKey) : Except IndexError Bool :=
  whenNothingStaged uis "cannot get UTXOs while staging isn't empty" (.ok (uis.database.lookup
      (utxoCountKeyForScriptPublicKey scriptPublicKey)).isSome)

def getBalance (decoders : Decoders) (uis : UtxoIndexStore)
    (scriptPublicKey : ScriptPublicKey) : Except IndexError UInt64 :=
  whenNothingStaged uis "cannot get balance while staging isn't empty" (sumAmounts decoders
      (cursor uis.database (bucketForScriptPublicKey scriptPublicKey)))

def getCirculatingSompiSupply (uis : UtxoIndexStore) : Except IndexError UInt64 :=
  whenNothingStaged uis "cannot get circulatingSupply while staging isn't empty"
    (match uis.database.lookup circulatingSupplyKey with
    | none => .ok 0
    | some circulatingSupply => deserializeUint64 circulatingSupply)

end Htnd.UtxoIndex.Store
