import Htnd.UtxoIndex.Keys

/-!
# Database transactions

`pebble/transactions.go`.  A transaction collects its writes in a batch and
notes for every key whether it was put or deleted last.  `Get` and `Has` ask
these notes first; `Cursor` is a cursor of the database.  An indexed batch is
read as the database under its writes.
-/

namespace Htnd.Database.Transactions

open Lib.RangeLoops Lib.OrderedStore UtxoIndex.Keys ConsensusState.UtxoKeys List

/-- A write of a batch; a deletion has no value. -/
structure Write where
  key : List UInt8
  value : Option (List UInt8)

def Write.apply (db : Database) (write : Write) : Database :=
  match write.value with
  | some value => db.insert write.key value
  | none => db.erase write.key

/-- The database under the writes of a batch. -/
def overlay (db : Database) (batch : List Write) : Database := batch.foldl Write.apply db

/-- A writing operation; the pairs stand in the order the map is iterated. -/
inductive Operation
  | put (key value : List UInt8)
  | batchPut (pairs : List (List UInt8 × List UInt8))
  | delete (key : List UInt8)

def Operation.writes : Operation → List Write
  | put key value => [⟨key, some value⟩]
  | batchPut pairs => pairs.map fun pair => ⟨pair.1, some pair.2⟩
  | delete key => [⟨key, none⟩]

inductive DbError
  | closed
  | notFound
  | writtenUnindexed
deriving DecidableEq

def dbGet (db : Database) (key : List UInt8) : Except DbError (List UInt8) :=
  match db.lookup key with
  | some value => .ok value
  | none => .error .notFound

structure DBTransaction where
  db : Database
  batch : List Write
  indexed : Bool
  isClosed : Bool
  keyModifications : FiniteMap (List UInt8) Bool

def begin (db : Database) : DBTransaction := ⟨db, [], true, false, ∅⟩

namespace DBTransaction

variable (tx : DBTransaction)

/-- Every operation fails on a closed transaction. -/
def whenOpen {α : Type} (result : Except DbError α) : Except DbError α :=
  if tx.isClosed then .error .closed else result

def track (write : Write) : DBTransaction :=
  { tx with
    batch := tx.batch ++ [write]
    keyModifications := tx.keyModifications.insert write.key write.value.isSome }

/-- `Put`, `BatchPut` and `Delete`. -/
def perform (operation : Operation) : Except DbError DBTransaction :=
  tx.whenOpen (.ok (operation.writes.foldl track tx))

def get (key : List UInt8) : Except DbError (List UInt8) :=
  tx.whenOpen (match tx.keyModifications.lookup key with
    | some false => .error .notFound
    | some true =>
      if !tx.indexed then .error .writtenUnindexed
      else
        match (overlay tx.db tx.batch).lookup key with
        | some value => .ok value
        | none => dbGet tx.db key
    | none => dbGet tx.db key)

def has (key : List UInt8) : Except DbError Bool :=
  tx.whenOpen (.ok ((tx.keyModifications.lookup key).getD (tx.db.lookup key).isSome))

/-- What a walk along `Cursor` lists. -/
def walk (bucket : Bucket) : Except DbError (List (List UInt8 × List UInt8)) :=
  tx.whenOpen (.ok (cursor tx.db bucket))

def commit : Except DbError DBTransaction :=
  tx.whenOpen (.ok { tx with
    db := overlay tx.db tx.batch, isClosed := true, keyModifications := ∅ })

def rollback : Except DbError DBTransaction :=
  tx.whenOpen (.ok { tx with isClosed := true, keyModifications := ∅ })

end DBTransaction

/-- An open transaction over `db` with these writes. -/
structure Made (db : Database) (writes : List Write) (tx : DBTransaction) : Prop where
  sameDb : tx.db = db
  isBatch : tx.batch = writes
  isIndexed : tx.indexed = true
  isOpen : tx.isClosed = false
  noted : ∀ key isPut, tx.keyModifications.lookup key = some isPut →
    ((overlay db writes).lookup key).isSome = isPut
  unnoted : ∀ key, tx.keyModifications.lookup key = none →
    (overlay db writes).lookup key = db.lookup key

variable {db written : Database} {writes : List Write} {tx : DBTransaction}

theorem lookup_overlay_concat (write : Write) (key : List UInt8) :
    (overlay db (writes ++ [write])).lookup key =
      if key = write.key then write.value
      else (overlay db writes).lookup key := by
  rw [overlay, foldl_append]
  change (write.apply _).lookup key = _
  rw [Write.apply]
  cases write.value with
  | some value => exact insert_ite ..
  | none => exact erase_ite ..

theorem Made.track (made : Made db writes tx) (write : Write) :
    Made db (writes ++ [write]) (tx.track write) := by
  have isNote (key : List UInt8) : (tx.track write).keyModifications.lookup
      key = _ := insert_ite tx.keyModifications write.key _ _
  refine ⟨made.sameDb, ?_, made.isIndexed, made.isOpen, ?_, ?_⟩
  · rw [← made.isBatch]
    rfl
  · intro key isPut isNoted
    rw [isNote] at isNoted
    rw [lookup_overlay_concat]
    split_ifs at isNoted ⊢
    · exact Option.some.inj isNoted
    · exact made.noted key isPut isNoted
  · intro key isNoted
    rw [isNote] at isNoted
    rw [lookup_overlay_concat]
    split_ifs at isNoted ⊢
    exact made.unnoted key isNoted

theorem Made.whenOpen (made : Made db writes tx) {α : Type}
    (result : Except DbError α) : tx.whenOpen result = result := by
  rw [DBTransaction.whenOpen, made.isOpen]
  rfl

theorem Made.foldl_track (made : Made db writes tx) (more : List Write) :
    Made db (writes ++ more) (more.foldl DBTransaction.track tx) := by
  induction more generalizing writes tx with
  | nil =>
    rw [append_nil]
    exact made
  | cons write more ih =>
    rw [append_cons]
    exact ih (made.track write)

theorem Made.foldlM_perform (made : Made db writes tx) (operations : List Operation) : ∃ next,
    operations.foldlM DBTransaction.perform tx = .ok next ∧
    Made db (writes ++ operations.flatMap Operation.writes) next := by
  induction operations generalizing writes tx with
  | nil =>
    rw [flatMap_nil, append_nil]
    exact ⟨tx, rfl, made⟩
  | cons operation rest ih =>
    rw [foldlM_cons, DBTransaction.perform, made.whenOpen, flatMap_cons, ← append_assoc]
    exact ih (made.foldl_track operation.writes)

/-- Two walks are the same if the keys of the bucket are. -/
theorem cursor_eq_iff {bucket : Bucket} : cursor db bucket = cursor written bucket ↔ ∀ suffix,
    db.lookup (bucket.key suffix) = written.lookup (bucket.key suffix) := by
  constructor
  · intro same suffix
    apply Option.ext
    intro value
    rw [← mem_cursor, ← mem_cursor, same]
  · intro same
    rw [cursor, cursor, scan_congr]
    intro item covered
    rw [covers_bytesPrefix] at covered
    rcases covered with ⟨suffix, isKey⟩
    rw [mem_entries, mem_entries, ← isKey]
    exact iff_of_eq (congrArg (· = some item.2) (same suffix))

/--
`Get` and `Has` answer as the database under the writes so far, which `Commit`
makes the database and `Rollback` drops.  A cursor does so exactly if no key of
its bucket has changed.
-/
theorem transaction_reads_iff (db : Database) (operations : List Operation) (bucket : Bucket) :
    let written := overlay db (operations.flatMap Operation.writes)
    ∃ tx, operations.foldlM DBTransaction.perform (begin db) = .ok tx ∧ tx.db = db ∧
      (∀ key, tx.get key = dbGet written key ∧ tx.has key = .ok (written.lookup key).isSome) ∧
      (∃ next, tx.commit = .ok next ∧ next.db = written) ∧
      (∃ next, tx.rollback = .ok next ∧ next.db = db) ∧
      (tx.walk bucket = .ok (cursor written bucket) ↔ ∀ suffix, db.lookup (bucket.key suffix) =
      written.lookup (bucket.key suffix)) := by
  intro written
  have start : Made db [] (begin db) := ⟨rfl, rfl, rfl, rfl, nofun, fun _ _ => rfl⟩
  rcases start.foldlM_perform operations with ⟨tx, performs, made⟩
  rw [nil_append] at made
  have isOverlay : overlay tx.db tx.batch = written := by rw [made.sameDb, made.isBatch]
  refine ⟨tx, performs, made.sameDb, fun key => ?_,
    ⟨_, made.whenOpen _, isOverlay⟩, ⟨_, made.whenOpen _, made.sameDb⟩, ?_⟩
  · rw [DBTransaction.get, DBTransaction.has, made.whenOpen, made.whenOpen,
      isOverlay, made.sameDb, made.isIndexed]
    simp only [dbGet]
    cases isNoted : tx.keyModifications.lookup key with
    | none =>
      rw [show written.lookup key = _ from made.unnoted key isNoted]
      exact ⟨rfl, rfl⟩
    | some isPut =>
      have isThere : (written.lookup key).isSome = isPut := made.noted key isPut isNoted
      cases found : written.lookup key with
      | none | some =>
        rw [found] at isThere
        cases isThere
        exact ⟨rfl, rfl⟩
  · rw [DBTransaction.walk, made.whenOpen, made.sameDb, Except.ok.injEq, cursor_eq_iff]

/-- A cursor opened after a `Put` does not list what was put. -/
theorem walk_misses_put : ∃ tx, (begin ∅).perform (.put [1] [2]) = .ok tx ∧
    tx.get [1] = .ok [2] ∧ tx.walk ⟨[]⟩ = .ok [] ∧
    cursor (overlay tx.db tx.batch) ⟨[]⟩ = [([1], [2])] :=
  ⟨_, rfl, by decide, by decide, by decide⟩

end Htnd.Database.Transactions
