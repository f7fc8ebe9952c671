import Htnd.Utxo.MutableDiff

/-!
# The algebra of UTXO diffs

The model of `diff_algebra.go` and `changed_outpoints.go`: conflict checks,
`diffFrom`, `withDiffInPlace`, `withDiff`, and the fast path that looks only
at changed outpoints.  Each operation is characterised outpoint by outpoint
in terms of the cells of its arguments.
-/

namespace Htnd.Utxo.DiffAlgebra

open Lib.RangeLoops Lib.StampedCell Entry MutableDiff List UTXODiff
  UTXOCollection

/-! ## Conflicts -/

/-- A rule on an outpoint and its entries in two collections. -/
abbrev ConflictRule := DomainOutpoint → UTXOEntry → UTXOEntry → Bool

/-- `checkIntersectionWithRule`: the smaller collection is iterated. -/
def checkIntersectionWithRule (collectionA collectionB : UTXOCollection)
    (extraRule : ConflictRule) : Option DomainOutpoint :=
  if collectionB.len < collectionA.len then
    findKey (fun outpoint entryB => (collectionA.get outpoint).any fun entryA => extraRule outpoint
      entryA entryB) collectionB
  else
    findKey (fun outpoint entryA => (collectionB.get outpoint).any fun entryB => extraRule outpoint
      entryA entryB) collectionA

def isTolerableConflict (entryA entryB : UTXOEntry) : Bool :=
  (entryA.isCoinbase && entryB.isCoinbase) ||
    (entryA.amount == entryB.amount && entryA.scriptPublicKey == entryB.scriptPublicKey)

/--
The loop of `resolveConflicts`.  Every round either ends the loop or marks a
new outpoint of the first collection as seen, so one round more than that
collection has entries is enough; `resolve_eq_none` shows that the
last line is never reached.
-/
def resolveConflictsLoop (funcName : String)
    (collectionA collectionB : UTXOCollection) (rule : ConflictRule)
    (conflictDescription : String) : Nat → List DomainOutpoint → Option DiffError
  | rounds + 1, seen =>
    match checkIntersectionWithRule collectionA collectionB (fun outpoint entryA entryB =>
        !seen.contains outpoint && rule outpoint entryA entryB) with
    | none => none
    | some offendingOutpoint =>
      match collectionA.get offendingOutpoint, collectionB.get offendingOutpoint with
      | some entryA, some entryB =>
        if !isTolerableConflict entryA entryB then
          some (.conflict funcName offendingOutpoint conflictDescription entryA entryB)
        else
          resolveConflictsLoop funcName collectionA collectionB rule
            conflictDescription rounds (offendingOutpoint :: seen)
      | _, _ => some .nilEntryDereference
  | 0, _ => none

def resolveConflicts (funcName : String) (collectionA collectionB : UTXOCollection)
    (rule : ConflictRule) (conflictDescription : String) : Option DiffError :=
  resolveConflictsLoop funcName collectionA collectionB rule
    conflictDescription (collectionA.len + 1) []

/-! ## Loops over two collections -/

/--
`intersectionWithRemainderHavingDAAScoreInPlace`: the new `result` and the
new `remainder`.
-/
def intersectionWithRemainderHavingDAAScoreInPlace
    (collection1 collection2 result remainder : UTXOCollection) : UTXOCollection × UTXOCollection :=
  (insertWhere (fun outpoint entry1 => collection2.containsWithDAAScore outpoint
      entry1.blockDAAScore) collection1 result,
      insertWhere (fun outpoint entry1 => !collection2.containsWithDAAScore outpoint
      entry1.blockDAAScore) collection1 remainder)

/-- `subtractionHavingDAAScoreInPlace`: the new `result`. -/
def subtractionHavingDAAScoreInPlace
    (collection1 collection2 result : UTXOCollection) : UTXOCollection :=
  insertWhere (fun outpoint utxoEntry => !collection2.containsWithDAAScore outpoint
    utxoEntry.blockDAAScore) collection1 result

/--
`subtractionWithRemainderHavingDAAScoreInPlace`: the new `result` and the new
`remainder`.
-/
def subtractionWithRemainderHavingDAAScoreInPlace
    (collection1 collection2 result remainder : UTXOCollection) : UTXOCollection × UTXOCollection :=
  (subtractionHavingDAAScoreInPlace collection1 collection2 result,
    insertWhere (fun outpoint utxoEntry => collection2.containsWithDAAScore outpoint
    utxoEntry.blockDAAScore) collection1 remainder)

/-! ## `diffFrom` -/

/-- The rule for an outpoint of `this.toRemove` and `other.toAdd`. -/
def isNotAddedOutputRemovedWithDAAScore (this other : UTXODiff) :
    ConflictRule :=
  fun outpoint utxoEntry diffEntry => !(diffEntry.blockDAAScore != utxoEntry.blockDAAScore &&
    (this.toAdd.containsWithDAAScore outpoint diffEntry.blockDAAScore ||
    other.toRemove.containsWithDAAScore outpoint utxoEntry.blockDAAScore))

/-- The rule for an outpoint of `this.toAdd` and `other.toRemove`. -/
def isNotRemovedOutputAddedWithDAAScore (this other : UTXODiff) :
    ConflictRule :=
  fun outpoint utxoEntry diffEntry => !(diffEntry.blockDAAScore != utxoEntry.blockDAAScore &&
    (this.toRemove.containsWithDAAScore outpoint diffEntry.blockDAAScore ||
    other.toAdd.containsWithDAAScore outpoint utxoEntry.blockDAAScore))

/--
The check of `diffFrom` at an outpoint that both diffs add with one DAA
score: the entry that only one of them removes has to be tolerable.
-/
def removedByOneOnly (this other : UTXODiff) (outpoint : DomainOutpoint) : Option UTXOEntry :=
  match this.toRemove.get outpoint, other.toRemove.get outpoint with
  | some removedEntry, none => some removedEntry
  | none, some removedEntry => some removedEntry
  | _, _ => none

/-- The loop of `diffFrom` over the outpoints both diffs add. -/
def checkInBothToAdd (this other : UTXODiff) (inBothToAdd : UTXOCollection) : Option DiffError :=
  inBothToAdd.entries.findSome? fun item =>
    (removedByOneOnly this other item.1).bind fun removedEntry =>
      if !isTolerableConflict item.2 removedEntry then
        some (.addedTwiceRemovedOnce item.1 item.2 removedEntry)
      else none

/-- The first error of a sequence of checks. -/
def firstError (checks : List (Option DiffError)) : Option DiffError := checks.findSome? id

/-- The checks of `diffFrom`, in the order in which they are made. -/
def diffFromChecks (this other : UTXODiff) : Option DiffError :=
  firstError [ resolveConflicts "diffFrom" this.toRemove other.toAdd
      (isNotAddedOutputRemovedWithDAAScore this other) "both in this.toRemove and in other.toAdd",
    resolveConflicts "diffFrom" this.toAdd other.toRemove
      (isNotRemovedOutputAddedWithDAAScore this other) "both in this.toAdd and in other.toRemove",
    resolveConflicts "diffFrom" this.toRemove other.toRemove (fun _ utxoEntry diffEntry =>
        utxoEntry.blockDAAScore != diffEntry.blockDAAScore)
      ("both in this.toRemove and other.toRemove with different DAA scores, "
        ++ "with no corresponding entry in this.toAdd"), checkInBothToAdd this other
      (subtractionWithRemainderHavingDAAScoreInPlace this.toAdd other.toAdd ∅ ∅).2]

/-- The collections `diffFrom` builds when no check fails. -/
def diffFromResult (this other : UTXODiff) : UTXODiff where
  toRemove := subtractionHavingDAAScoreInPlace other.toRemove this.toRemove
    (subtractionWithRemainderHavingDAAScoreInPlace this.toAdd other.toAdd ∅ ∅).1
  toAdd := subtractionHavingDAAScoreInPlace other.toAdd this.toAdd
    (subtractionHavingDAAScoreInPlace this.toRemove other.toRemove ∅)

def diffFrom (this other : UTXODiff) : Except DiffError UTXODiff :=
  match diffFromChecks this other with
  | some err => .error err
  | none => .ok (diffFromResult this other)

/-! ## `withDiffInPlace` -/

/-- The outpoints `withDiffInPlace` records as changed. -/
def recordChanges (this : MutableUTXODiff) (other : UTXODiff) :
    MutableUTXODiff :=
  other.toRemove.keys.foldl MutableUTXODiff.recordChange
    (other.toAdd.keys.foldl MutableUTXODiff.recordChange this)

/-- The checks of `withDiffInPlace`. -/
def withDiffChecks (this other : UTXODiff) : Option DiffError :=
  firstError [ resolveConflicts "withDiffInPlace" other.toRemove this.toRemove
      (fun outpoint entryToAdd _ =>
        !this.toAdd.containsWithDAAScore outpoint entryToAdd.blockDAAScore)
      "both in this.toRemove and in other.toRemove",
    resolveConflicts "withDiffInPlace" other.toAdd this.toAdd (fun outpoint _ existingEntry =>
        !other.toRemove.containsWithDAAScore outpoint existingEntry.blockDAAScore)
      "both in this.toAdd and in other.toAdd"]

/-- The first half of `withDiffInPlace`: the removals of `other`. -/
def withDiffRemovals (this other : UTXODiff) : UTXODiff :=
  let intersection := intersectionWithRemainderHavingDAAScoreInPlace
    other.toRemove this.toAdd ∅ this.toRemove
  ⟨this.toAdd.removeMultiple intersection.1, intersection.2⟩

/-- The second half of `withDiffInPlace`: the additions of `other`. -/
def withDiffAdditions (this other : UTXODiff) : UTXODiff :=
  let intersection := intersectionWithRemainderHavingDAAScoreInPlace
    other.toAdd this.toRemove ∅ this.toAdd
  ⟨intersection.2, this.toRemove.removeMultiple intersection.1⟩

/-- The collections `withDiffInPlace` leaves when no check fails. -/
def withDiffResult (this other : UTXODiff) : UTXODiff :=
  withDiffAdditions (withDiffRemovals this other) other

def withDiffInPlace (this : MutableUTXODiff) (other : UTXODiff) :
    MutableUTXODiff × Option DiffError :=
  let this := recordChanges this other
  match withDiffChecks this.toUTXODiff other with
  | some err => (this, some err)
  | none => ({ this with toUTXODiff := withDiffResult this.toUTXODiff other }, none)

def withDiff (this : MutableUTXODiff) (diff : UTXODiff) : Except DiffError MutableUTXODiff :=
  match withDiffInPlace this.clone diff with
  | (_, some err) => .error err
  | (clone, none) => .ok clone

/-! ## Diffing over changed outpoints -/

/--
`immutableUTXODiff`: a reference to a mutable diff, by its address and its
contents.
-/
structure ImmutableUTXODiff where
  address : DiffAddress
  mutableUTXODiff : MutableUTXODiff
  isInvalidated : Bool

def cloneMutableRecordingChanges (diff : ImmutableUTXODiff) : Except DiffError MutableUTXODiff :=
  if diff.isInvalidated then
    .error (.invalidated "attempt to clone an invalidated UTXODiff")
  else
    .ok { diff.mutableUTXODiff.clone with
          changed := some []
          changedFrom := some diff.address }

/-- The entries of a collection at the given outpoints. -/
def restrictCollection (collection : UTXOCollection)
    (outpoints : List DomainOutpoint) : UTXOCollection :=
  outpoints.foldl (fun restricted outpoint =>
      match collection.get outpoint with
      | some entry => restricted.add outpoint entry
      | none => restricted)
    ∅

def restrictToOutpoints (diff : UTXODiff) (outpoints : List DomainOutpoint) : UTXODiff :=
  ⟨restrictCollection diff.toAdd outpoints, restrictCollection diff.toRemove outpoints⟩

/-- What `DiffFromChanged` returns once it has called `diffFrom`. -/
def computedOutcome : Except DiffError UTXODiff → Option UTXODiff × Bool × Option DiffError
  | .error err => (none, true, some err)
  | .ok result => (some result, true, none)

/-- `DiffFromChanged`: the result, whether it was computed, and the error. -/
def diffFromChanged (this other : ImmutableUTXODiff) : Option UTXODiff × Bool × Option DiffError :=
  if this.isInvalidated || other.isInvalidated then
    (none, false, some (.invalidated "attempt to read from an invalidated UTXODiff"))
  else
    match other.mutableUTXODiff.changed with
    | none => (none, false, none)
    | some changed =>
      if other.mutableUTXODiff.changedFrom != some this.address then
        (none, false, none)
      else
        computedOutcome (diffFrom (restrictToOutpoints this.mutableUTXODiff.toUTXODiff changed)
          (restrictToOutpoints other.mutableUTXODiff.toUTXODiff changed))

/-! ## What the checks decide -/

theorem checkIntersectionWithRule_eq_none (diffA collectionB : UTXOCollection)
    (extraRule : ConflictRule) : checkIntersectionWithRule diffA collectionB extraRule = none ↔
    ∀ point entryA entryB, diffA.get point = some entryA → collectionB.get point = some entryB →
    extraRule point entryA entryB = false := by
  rw [checkIntersectionWithRule]
  split_ifs with larger
  · rw [findKey_eq_none]
    constructor
    · intro fails point entryA entryB inA inB
      simpa [inA] using fails point entryB inB
    · intro fails point entryB inB
      cases inA : diffA.get point with
      | none => rfl
      | some entryA => exact fails point entryA entryB inA inB
  · rw [findKey_eq_none]
    constructor
    · intro fails point entryA entryB inA inB
      simpa [inB] using fails point entryA inA
    · intro fails point entryA inA
      cases inB : collectionB.get point with
      | none => rfl
      | some entryB => exact fails point entryA entryB inA inB

theorem get_of_checkIntersectionWithRule {diffA collectionB : UTXOCollection}
    {extraRule : ConflictRule} {point : DomainOutpoint}
    (found : checkIntersectionWithRule diffA collectionB extraRule = some point) : ∃ entryA entryB,
    diffA.get point = some entryA ∧ collectionB.get point = some entryB ∧
    extraRule point entryA entryB = true := by
  rw [checkIntersectionWithRule] at found
  split_ifs at found with larger
  · obtain ⟨entryB, inB, passes⟩ := lookup_of_findKey found
    obtain ⟨entryA, inA, rule⟩ := (Option.any_eq_true _ _).mp passes
    exact ⟨entryA, entryB, inA, inB, rule⟩
  · obtain ⟨entryA, inA, passes⟩ := lookup_of_findKey found
    obtain ⟨entryB, inB, rule⟩ := (Option.any_eq_true _ _).mp passes
    exact ⟨entryA, entryB, inA, inB, rule⟩

/--
The loop reports an error exactly when some outpoint that was not seen yet
meets the rule and is not tolerable.  The rounds left and the outpoints seen
together exceed the size of the first collection, so the loop never stops for
want of rounds.
-/
theorem resolveConflictsLoop_eq_none (funcName : String) (diffA collectionB : UTXOCollection)
    (rule : ConflictRule) (clash : String) (rounds : Nat) (seen : List DomainOutpoint)
    (nodup : seen.Nodup) (there : ∀ point ∈ seen, (diffA.get point).isSome)
    (enough : diffA.len < rounds + seen.length) : resolveConflictsLoop funcName diffA collectionB
    rule clash rounds seen = none ↔ ∀ point entryA entryB, point ∉ seen →
    diffA.get point = some entryA → collectionB.get point = some entryB → rule point entryA entryB =
    true → isTolerableConflict entryA entryB = true := by
  induction rounds generalizing seen with
  | zero =>
    have subset : seen ⊆ diffA.keys := fun point mem =>
      AList.mem_keys.mp (AList.lookup_isSome.mp (there point mem))
    have bound := (subperm_of_subset nodup subset).length_le
    simp only [len, AList.keys, List.keys, length_map] at bound enough
    omega
  | succ rounds ih =>
    rw [resolveConflictsLoop]
    cases search : checkIntersectionWithRule diffA collectionB
      (fun point entryA entryB => !seen.contains point && rule point entryA entryB) with
    | none =>
      have noneLeft := (checkIntersectionWithRule_eq_none _ _ _).mp search
      refine iff_of_true rfl ?_
      intro point entryA entryB unseen inA inB meets
      have fails := noneLeft point entryA entryB inA inB
      simp [unseen, meets] at fails
    | some offending =>
      obtain ⟨offendingA, offendingB, inA, inB, passes⟩ := get_of_checkIntersectionWithRule search
      have unseen : offending ∉ seen := by
        intro mem
        simp [mem] at passes
      have meets : rule offending offendingA offendingB = true := by simpa [unseen] using passes
      simp only [inA, inB]
      cases tolerable : isTolerableConflict offendingA offendingB with
      | false =>
        refine iff_of_false (by simp) ?_
        intro allTolerable
        have shouldBe := allTolerable offending offendingA offendingB unseen inA inB meets
        simp [tolerable] at shouldBe
      | true =>
        have presentNext : ∀ point ∈ offending :: seen, (diffA.get point).isSome := by
          intro point mem
          rcases mem_cons.mp mem with rfl | old
          · simp [inA]
          · exact there point old
        have step := ih (offending :: seen) (nodup_cons.mpr ⟨unseen, nodup⟩) presentNext
          (by simp only [length_cons]; omega)
        simp only [Bool.not_true, Bool.false_eq_true, if_false]
        rw [step]
        constructor
        · intro rest point entryA entryB notSeen getA getB holdsRule
          by_cases isOffending : point = offending
          · subst isOffending
            rw [inA] at getA
            rw [inB] at getB
            cases getA
            cases getB
            exact tolerable
          · exact rest point entryA entryB (by simp [isOffending, notSeen]) getA getB holdsRule
        · intro all point entryA entryB notSeen
          exact all point entryA entryB (fun mem => notSeen (.tail _ mem))

/-- `resolveConflicts` succeeds when all conflicts under its rule are tolerable. -/
theorem resolve_eq_none (funcName : String) (diffA collectionB : UTXOCollection)
    (rule : ConflictRule) (clash : String) : resolveConflicts funcName diffA collectionB rule
    clash = none ↔ ∀ point entryA entryB, diffA.get point = some entryA → collectionB.get point =
    some entryB → rule point entryA entryB = true → isTolerableConflict entryA entryB = true := by
  rw [resolveConflicts, resolveConflictsLoop_eq_none]
  · simp
  · exact nodup_nil
  · simp
  · simp

/-! ## Cells of the results -/

theorem get_insertWhere (test : DomainOutpoint → UTXOEntry → Bool) (source target : UTXOCollection)
    (point : DomainOutpoint) : UTXOCollection.get (insertWhere test source target) point =
    ((source.get point).filter (test point)).or (target.get point) :=
  lookup_insertWhere test source target point

section

variable (this other : UTXODiff) (point : DomainOutpoint)

include this other point

/-- Without a failed check, `diffFrom` is the diff of the cells. -/
theorem cell_diffFromResult : (diffFromResult this other).cell point =
      Cell.diff UTXOEntry.blockDAAScore (this.cell point) (other.cell point) := by
  simp [cell, diffFromResult, Cell.diff, subtractionWithRemainderHavingDAAScoreInPlace,
    subtractionHavingDAAScoreInPlace, get_insertWhere, contains_eq_holds, unlessHeld]

theorem cell_withDiffRemovals : (withDiffRemovals this other).cell point =
      Cell.mergeRemove UTXOEntry.blockDAAScore (this.cell point) (other.cell point) := by
  simp only [cell, withDiffRemovals, intersectionWithRemainderHavingDAAScoreInPlace,
    get_removeMultiple, get_insertWhere, Cell.mergeRemove, contains_eq_holds]
  cases other.toRemove.get point with
  | none => rfl
  | some entry =>
    cases held : holds UTXOEntry.blockDAAScore (this.toAdd.get point)
      entry.blockDAAScore <;> simp [held, Option.filter]

theorem cell_withDiffAdditions : (withDiffAdditions this other).cell point =
      Cell.mergeAdd UTXOEntry.blockDAAScore (this.cell point) (other.cell point) := by
  simp only [cell, withDiffAdditions, intersectionWithRemainderHavingDAAScoreInPlace,
    get_removeMultiple, get_insertWhere, Cell.mergeAdd]
  cases other.toAdd.get point with
  | none => rfl
  | some entry =>
    cases held : holds UTXOEntry.blockDAAScore (this.toRemove.get point) entry.blockDAAScore <;>
      simp [held, Option.filter]

/-- Without a failed check, `withDiffInPlace` merges the cells. -/
theorem cell_withDiffResult : (withDiffResult this other).cell point =
      Cell.merge UTXOEntry.blockDAAScore (this.cell point) (other.cell point) := by
  rw [withDiffResult, cell_withDiffAdditions, cell_withDiffRemovals]
  rfl

end

/-! ## When the operations fail -/

theorem firstError_eq_none (checks : List (Option DiffError)) :
    firstError checks = none ↔ ∀ check ∈ checks, check = none := by
  simp [firstError]

/-- A tolerable clash does not make an operation fail. -/
def Tolerated (clash : UTXOEntry → UTXOEntry → Prop) : Prop :=
  ∀ entryA entryB, clash entryA entryB → isTolerableConflict entryA entryB = true

variable (this other : UTXODiff)

/-- `withDiffInPlace` succeeds when every clash is tolerable. -/
theorem withDiffChecks_eq_none : withDiffChecks this other = none ↔ ∀ point,
      Tolerated (Cell.MergeClash UTXOEntry.blockDAAScore (this.cell point) (other.cell point)) := by
  simp only [withDiffChecks, firstError_eq_none, forall_mem_cons,
    not_mem_nil, false_implies, implies_true, and_true, resolve_eq_none, contains_eq_holds,
    Bool.not_eq_true', Tolerated, Cell.MergeClash, or_imp, forall_and, and_imp]
  rfl

theorem checkInBothToAdd_eq_none (inBothToAdd : UTXOCollection) :
    checkInBothToAdd this other inBothToAdd = none ↔ ∀ point addedEntry removedEntry,
    inBothToAdd.get point = some addedEntry → removedByOneOnly this other point =
    some removedEntry → isTolerableConflict addedEntry removedEntry = true := by
  rw [checkInBothToAdd, List.findSome?_eq_none_iff]
  constructor
  · intro passes point addedEntry removedEntry added gone
    have mem := (mem_entries inBothToAdd ⟨point, addedEntry⟩).mpr added
    have passed := passes _ mem
    simpa [gone] using passed
  · intro tolerable item mem
    have added := (mem_entries inBothToAdd item).mp mem
    cases gone : removedByOneOnly this other item.1 with
    | none => rfl
    | some removedEntry => simpa using tolerable item.1 item.2 removedEntry added gone

theorem removedByOneOnly_eq_some (point : DomainOutpoint) (removedEntry : UTXOEntry) :
    removedByOneOnly this other point = some removedEntry ↔
    (this.toRemove.get point = some removedEntry ∧ other.toRemove.get point = none) ∨
    (this.toRemove.get point = none ∧ other.toRemove.get point = some removedEntry) := by
  unfold removedByOneOnly
  cases this.toRemove.get point <;> cases other.toRemove.get point <;> simp

/-- `diffFrom` succeeds when every clash is tolerable. -/
theorem diffFrom_eq_none : diffFromChecks this other = none ↔ ∀ point,
      Tolerated (Cell.DiffClash UTXOEntry.blockDAAScore (this.cell point) (other.cell point)) := by
  have inBoth : ∀ point addedEntry, get (subtractionWithRemainderHavingDAAScoreInPlace this.toAdd
      other.toAdd ∅ ∅).2 point = some addedEntry ↔ this.toAdd.get point = some addedEntry ∧
      holds UTXOEntry.blockDAAScore (other.toAdd.get point) addedEntry.blockDAAScore = true := by
    intro point addedEntry
    simp [subtractionWithRemainderHavingDAAScoreInPlace, get_insertWhere,
      Option.filter_eq_some_iff, contains_eq_holds]
  simp only [diffFromChecks, firstError_eq_none, forall_mem_cons, not_mem_nil, false_implies,
    implies_true, and_true, resolve_eq_none, checkInBothToAdd_eq_none, inBoth,
    removedByOneOnly_eq_some, isNotAddedOutputRemovedWithDAAScore,
    isNotRemovedOutputAddedWithDAAScore, Tolerated, Cell.DiffClash, or_imp, forall_and, and_imp]
  simp [cell, or_iff_not_imp_left]

/-! ## The operations as a whole -/

@[simp]
theorem records_toUTXODiff (this : MutableUTXODiff) (other : UTXODiff) :
    (recordChanges this other).toUTXODiff = this.toUTXODiff := by
  have loop : ∀ (outpoints : List DomainOutpoint) (mud : MutableUTXODiff),
      (outpoints.foldl MutableUTXODiff.recordChange mud).toUTXODiff =
        mud.toUTXODiff := by
    intro outpoints
    induction outpoints with
    | nil => exact fun _ => rfl
    | cons point rest ih =>
      intro mud
      exact ih (mud.recordChange point)
  rw [recordChanges, loop, loop]

theorem inPlace_error (this : MutableUTXODiff) (other : UTXODiff) :
    (withDiffInPlace this other).2 = withDiffChecks this.toUTXODiff other := by
  simp only [withDiffInPlace, records_toUTXODiff]
  cases withDiffChecks this.toUTXODiff other with
  | none => rfl
  | some err => rfl

theorem inPlace_toUTXODiff (this : MutableUTXODiff) (other : UTXODiff) :
    (withDiffInPlace this other).1.toUTXODiff =
      if withDiffChecks this.toUTXODiff other = none then
        withDiffResult this.toUTXODiff other else this.toUTXODiff := by
  simp only [withDiffInPlace, records_toUTXODiff]
  cases withDiffChecks this.toUTXODiff other with
  | none => rfl
  | some err => exact records_toUTXODiff this other

theorem withDiff_of_checks {this : MutableUTXODiff} {diff : UTXODiff}
    (checks : withDiffChecks this.toUTXODiff diff = none) : ∃ result, withDiff this diff =
    .ok result ∧ result.toUTXODiff = withDiffResult this.toUTXODiff diff := by
  have noError := (inPlace_error this.clone diff).trans checks
  refine ⟨(withDiffInPlace this.clone diff).1, ?_, ?_⟩
  · rw [withDiff]
    generalize withDiffInPlace this.clone diff = outcome at noError
    rcases outcome with ⟨clone, _⟩
    cases noError
    rfl
  · rw [inPlace_toUTXODiff]
    exact if_pos checks

/-- A successful `withDiff` merges the collections. -/
theorem toUTXODiff_of_withDiff {this result : MutableUTXODiff}
    {diff : UTXODiff} (isOk : withDiff this diff = .ok result) :
    result.toUTXODiff = withDiffResult this.toUTXODiff diff := by
  have checks : withDiffChecks this.toUTXODiff diff = none := by
    cases outcome : withDiffChecks this.toUTXODiff diff with
    | none => rfl
    | some err =>
      have failed := (inPlace_error this.clone diff).trans outcome
      rw [withDiff] at isOk
      generalize withDiffInPlace this.clone diff = pair at failed isOk
      rcases pair with ⟨clone, _⟩
      cases failed
      cases isOk
  obtain ⟨_, expectedSuccess, merged⟩ := withDiff_of_checks checks
  rw [isOk] at expectedSuccess
  cases expectedSuccess
  exact merged

theorem diffFrom_of_checks {this other : UTXODiff} (checks : diffFromChecks this other = none) :
    diffFrom this other = .ok (diffFromResult this other) := by
  rw [diffFrom, checks]

/-! ## Restriction -/

theorem get_restrictCollection (coins : UTXOCollection) (outpoints : List DomainOutpoint)
    (point : DomainOutpoint) : (restrictCollection coins outpoints).get point =
      if point ∈ outpoints then coins.get point else none := by
  have loop : ∀ (remaining : List DomainOutpoint) (restricted : UTXOCollection),
      get (remaining.foldl (fun restricted point =>
          match coins.get point with
          | some entry => restricted.add point entry
          | none => restricted) restricted) point =
        if point ∈ remaining ∧ (coins.get point).isSome then
          coins.get point
        else restricted.get point := by
    intro remaining
    induction remaining with
    | nil => simp
    | cons head rest ih =>
      intro restricted
      rw [foldl_cons, ih]
      by_cases isHead : point = head
      · subst isHead
        cases found : coins.get point <;> simp
      · cases found : coins.get head <;> simp [isHead]
  rw [restrictCollection, loop]
  cases found : coins.get point <;> simp

theorem cell_restrict (diff : UTXODiff) (outpoints : List DomainOutpoint) (point : DomainOutpoint) :
    (restrictToOutpoints diff outpoints).cell point =
      if point ∈ outpoints then diff.cell point else ⟨none, none⟩ := by
  rw [cell, restrictToOutpoints, get_restrictCollection, get_restrictCollection]
  split_ifs <;> rfl

end Htnd.Utxo.DiffAlgebra
