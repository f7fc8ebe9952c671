import Htnd.Utxo.DiffAlgebra

/-!
# UTXO sets and what diffs do to them

A UTXO set is a partial map from outpoints to entries.  The view of a diff
over a base set is the set obtained by looking first at what the diff adds,
then at what it removes, then at the base: the order in which the consensus
state manager populates transaction inputs.

Diffs that are valid on the sets they are applied to form a groupoid-like
algebra: `withDiff` composes them, `diffFrom` finds the diff between two of
them over one base, and `Reversed` turns one around.  The only assumption is
the one `diffFrom` documents, that entries met at one outpoint under one DAA
score are equal.
-/

open Htnd.Lib.StampedCell
open Htnd.Utxo.Entry Htnd.Utxo.MutableDiff Htnd.Utxo.DiffAlgebra UTXOCollection

namespace Htnd.Utxo.UtxoSet

abbrev UTXOSet := DomainOutpoint → Option UTXOEntry

end Htnd.Utxo.UtxoSet

variable {diff : UTXODiff}

namespace Htnd.Utxo.MutableDiff.UTXODiff

open Htnd.Utxo.UtxoSet

/-- The set a diff describes over a base: added, else removed, else base. -/
def view (diff : UTXODiff) (base : UTXOSet) : UTXOSet :=
  fun outpoint => (diff.cell outpoint).apply (base outpoint)

/--
The set as some lookups see it, which ask for removals first: a removed
outpoint is absent even if the diff also adds it.
-/
def removalsFirstView (diff : UTXODiff) (base : UTXOSet) : UTXOSet :=
  fun outpoint =>
    if diff.toRemove.contains outpoint then none
    else (diff.toAdd.get outpoint).or (base outpoint)

/-- The diff holds the outpoint on both sides. -/
def HoldsInBoth (diff : UTXODiff) (outpoint : DomainOutpoint) : Prop :=
  diff.toRemove.contains outpoint = true ∧ diff.toAdd.contains outpoint = true

/--
Every removed entry is the entry the base holds, and every added outpoint is
absent from the base or also removed.
-/
def ValidOn (diff : UTXODiff) (base : UTXOSet) : Prop :=
  ∀ outpoint, (diff.cell outpoint).ValidOn (base outpoint)

/-- The diff adds or removes this entry at this outpoint. -/
def Mentions (diff : UTXODiff) (outpoint : DomainOutpoint) (entry : UTXOEntry) : Prop :=
  diff.toAdd.get outpoint = some entry ∨ diff.toRemove.get outpoint = some entry

/-- No outpoint is both added and removed under one DAA score. -/
def Separated (diff : UTXODiff) : Prop :=
  ∀ outpoint added removed, diff.toAdd.get outpoint = some added →
    diff.toRemove.get outpoint = some removed → added.blockDAAScore ≠ removed.blockDAAScore

theorem separated_iff (diff : UTXODiff) : diff.Separated ↔
      ∀ point, Cell.Separated UTXOEntry.blockDAAScore (diff.cell point) :=
  Iff.rfl

/--
The two orders of lookup differ exactly on the outpoints in both, and there
already in what is present.
-/
theorem removalsFirst_iff (diff : UTXODiff) (base : UTXOSet) (point : DomainOutpoint) :
    (diff.removalsFirstView base point = diff.view base point ↔ ¬ diff.HoldsInBoth point) ∧
    ((diff.removalsFirstView base point).isSome = (diff.view base point).isSome ↔
    ¬ diff.HoldsInBoth point) := by
  unfold removalsFirstView view HoldsInBoth contains UTXODiff.cell
  cases gone : diff.toRemove.get point with
  | none => cases added : diff.toAdd.get point <;> simp [Cell.apply]
  | some entry => cases added : diff.toAdd.get point <;> simp [Cell.apply]

@[simp]
theorem view_empty (base : UTXOSet) : empty.view base = base := by
  funext point
  simp [view]

theorem validOn_empty (base : UTXOSet) : empty.ValidOn base := by
  intro point
  exact Cell.validOn_none (base point)

/-- The reversed diff is valid on the new set and leads back to the base. -/
theorem ValidOn.reversed {base : UTXOSet} (valid : diff.ValidOn base) :
    diff.reversed.ValidOn (diff.view base) ∧ diff.reversed.view (diff.view base) = base := by
  constructor
  · intro point
    exact (valid point).swap_valid.1
  · funext point
    exact (valid point).swap_valid.2

end Htnd.Utxo.MutableDiff.UTXODiff

namespace Htnd.Utxo.UtxoSet

/-- The entries a list of diffs mentions at an outpoint. -/
def entriesAt (diffs : List UTXODiff) (outpoint : DomainOutpoint) : Set UTXOEntry :=
  { entry | ∃ diff ∈ diffs, diff.Mentions outpoint entry }

/--
The assumption documented at `diffFrom`: entries the diffs mention at one
outpoint with the same DAA score are equal.
-/
def SameScoreSameEntry (diffs : List UTXODiff) : Prop :=
  ∀ outpoint, Set.InjOn UTXOEntry.blockDAAScore (entriesAt diffs outpoint)

theorem cell_new_within (values : Set UTXOEntry) (point : DomainOutpoint) :
    (MutableUTXODiff.newMutableUTXODiff.cell point).Within values := by
  change (UTXODiff.empty.cell point).Within _
  exact ⟨by simp, by simp⟩

theorem within_entriesAt {diffs : List UTXODiff} (mem : diff ∈ diffs)
    (point : DomainOutpoint) : (diff.cell point).Within (entriesAt diffs point) :=
  ⟨fun _ added => ⟨diff, mem, .inl added⟩, fun _ gone => ⟨diff, mem, .inr gone⟩⟩

/-! ## A coin restamped -/

/-- The outpoint of the concrete instances below. -/
def coinbaseOutpoint : DomainOutpoint := ⟨.filled 1, 0⟩

theorem opTrue_length_lt : ([0x51] : List UInt8).length < 2 ^ 63 := by
  decide

/-- A coinbase coin accepted at the given DAA score. -/
def coinbaseCoin (daaScore : UInt64) : UTXOEntry :=
  ⟨50, ⟨[0x51], 0, opTrue_length_lt⟩, daaScore, true⟩

/-- The set that holds just that coin. -/
def coinbaseSet (daaScore : UInt64) : UTXOSet :=
  fun outpoint =>
    if outpoint = coinbaseOutpoint then some (coinbaseCoin daaScore) else none

/-- The diff that moves the coin from one DAA score to another. -/
def restamp (oldScore newScore : UInt64) : UTXODiff :=
  ⟨AList.singleton coinbaseOutpoint (coinbaseCoin newScore),
    AList.singleton coinbaseOutpoint (coinbaseCoin oldScore)⟩

theorem get_coinbaseCoin (score : UInt64) (point : DomainOutpoint) :
    get (AList.singleton coinbaseOutpoint (coinbaseCoin score)) point =
    coinbaseSet score point := by
  have put := get_add ∅ coinbaseOutpoint point (coinbaseCoin score)
  rwa [get_empty] at put

variable (oldScore newScore : UInt64)

theorem cell_restamp (point : DomainOutpoint) : (restamp oldScore newScore).cell point =
      if point = coinbaseOutpoint then
        ⟨some (coinbaseCoin newScore), some (coinbaseCoin oldScore)⟩
      else ⟨none, none⟩ := by
  rw [UTXODiff.cell, restamp, get_coinbaseCoin, get_coinbaseCoin, coinbaseSet, coinbaseSet]
  split_ifs <;> rfl

theorem restamp_validOn : (restamp oldScore newScore).ValidOn (coinbaseSet oldScore) := by
  intro _
  rw [cell_restamp, coinbaseSet]
  split_ifs
  · exact Cell.validOn_replace _ _
  · exact Cell.validOn_none none

theorem view_restamp : (restamp oldScore newScore).view (coinbaseSet oldScore) =
      coinbaseSet newScore := by
  funext point
  rw [UTXODiff.view, cell_restamp, coinbaseSet, coinbaseSet]
  split_ifs <;> rfl

theorem restamp_sep {oldScore newScore : UInt64} (ne : newScore ≠ oldScore) :
    (restamp oldScore newScore).Separated := by
  rw [UTXODiff.separated_iff]
  intro _
  rw [cell_restamp]
  split_ifs
  · intro _ _ isAdded isGone
    cases isAdded
    cases isGone
    exact ne
  · exact Cell.separated_none _

/-- The coin of a set is determined by its score. -/
theorem eq_coinbaseCoin {score : UInt64} {point : DomainOutpoint} {entry : UTXOEntry}
    (held : coinbaseSet score point = some entry) : entry = coinbaseCoin entry.blockDAAScore := by
  rw [coinbaseSet] at held
  split_ifs at held
  cases held
  rfl

theorem injOn_of_coins {values : Set UTXOEntry} (coins : ∀ entry ∈ values,
    entry = coinbaseCoin entry.blockDAAScore) : Set.InjOn UTXOEntry.blockDAAScore values := by
  intro first isFirst second isSecond sameScore
  rw [coins first isFirst, coins second isSecond]
  exact congrArg coinbaseCoin sameScore

theorem restamps_same (scores : List (UInt64 × UInt64)) :
    SameScoreSameEntry (scores.map fun pair => restamp pair.1 pair.2) := by
  intro point
  apply injOn_of_coins
  rintro _ ⟨_, mem, mentions⟩
  rcases List.mem_map.mp mem with ⟨pair, -, rfl⟩
  rcases mentions with added | gone
  · exact eq_coinbaseCoin ((get_coinbaseCoin pair.2 point).symm.trans added)
  · exact eq_coinbaseCoin ((get_coinbaseCoin pair.1 point).symm.trans gone)

/-! ## Composition -/

variable {base : UTXOSet} {this other : UTXODiff}

/-- Valid diffs compose without a reported conflict. -/
theorem checks_of_valid (valid : this.ValidOn base) (valid' : other.ValidOn (this.view base)) :
    withDiffChecks this other = none := by
  rw [withDiffChecks_eq_none]
  intro point entryA entryB clash
  exact absurd clash ((valid point).not_mergeClash (valid' point) entryA entryB)

variable {values : DomainOutpoint → Set UTXOEntry}

/-- The merged collections describe both diffs, one after the other. -/
theorem withDiffResult_of_valid
    (coherent : ∀ point, Set.InjOn UTXOEntry.blockDAAScore (values point))
    (thisWithin : ∀ point, (this.cell point).Within (values point))
    (otherWithin : ∀ point, (other.cell point).Within (values point)) (valid : this.ValidOn base)
    (valid' : other.ValidOn (this.view base)) : (withDiffResult this other).ValidOn base ∧
    (withDiffResult this other).view base = other.view (this.view base) := by
  have merged : ∀ point, ((withDiffResult this other).cell point).ValidOn (base point) ∧
      ((withDiffResult this other).cell point).apply (base point) = (other.cell point).apply
      ((this.cell point).apply (base point)) := by
    intro point
    rw [cell_withDiffResult]
    exact (valid point).merge (coherent point) (thisWithin point) (otherWithin point) (valid' point)
  constructor
  · exact fun point => (merged point).1
  · funext point
    exact (merged point).2

/--
`WithDiffInPlace` on an accumulated diff for each diff of a list in turn, as
`restorePastUTXO` does; the first error ends the loop.
-/
def withDiffsInPlace (accumulated : MutableUTXODiff) :
    List UTXODiff → MutableUTXODiff × Option DiffError
  | [] => (accumulated, none)
  | diff :: rest =>
    match withDiffInPlace accumulated diff with
    | (accumulated, none) => withDiffsInPlace accumulated rest
    | (accumulated, some err) => (accumulated, some err)

/-- Each diff is valid on the set the diffs before it lead to. -/
def SuccessivelyValid (base : UTXOSet) : List UTXODiff → Prop
  | [] => True
  | diff :: rest => diff.ValidOn base ∧ SuccessivelyValid (diff.view base) rest

/-- The set a list of diffs leads to. -/
def applyAll (base : UTXOSet) (diffs : List UTXODiff) : UTXOSet :=
  diffs.foldl (fun set diff => diff.view set) base

/--
The loop invariant of accumulation: the accumulated diff is valid on the base
and mentions only values of a coherent family.
-/
theorem withDiffsInPlace_of_valid
    (coherent : ∀ point, Set.InjOn UTXOEntry.blockDAAScore (values point)) (diffs : List UTXODiff)
    (acc : MutableUTXODiff) (accumulatedWithin : ∀ point, (acc.cell point).Within (values point))
    (diffsWithin : ∀ diff ∈ diffs, ∀ point, (diff.cell point).Within (values point))
    (accumulatedValid : acc.ValidOn base) (diffsValid : SuccessivelyValid (acc.view base) diffs) :
    ∃ result, withDiffsInPlace acc diffs = (result, none) ∧ result.ValidOn base ∧
    result.view base = applyAll (acc.view base) diffs := by
  induction diffs generalizing acc with
  | nil => exact ⟨acc, rfl, accumulatedValid, rfl⟩
  | cons diff rest ih =>
    rcases diffsValid with ⟨diffValid, restValid⟩
    have diffWithin := diffsWithin diff (.head _)
    have checks := checks_of_valid accumulatedValid diffValid
    have noError := (inPlace_error acc diff).trans checks
    have merged : (withDiffInPlace acc diff).1.toUTXODiff = withDiffResult acc.toUTXODiff diff := by
      rw [inPlace_toUTXODiff, if_pos checks]
    have composed := withDiffResult_of_valid coherent accumulatedWithin
      diffWithin accumulatedValid diffValid
    rw [← merged] at composed
    rw [withDiffsInPlace]
    generalize withDiffInPlace acc diff = outcome at *
    rcases outcome with ⟨next, _⟩
    cases noError
    have nextWithin : ∀ point, (next.cell point).Within (values point) := by
      intro point
      rw [merged, cell_withDiffResult]
      exact (accumulatedWithin point).merge _ (diffWithin point)
    rw [← composed.2] at restValid
    rcases ih next nextWithin (fun other mem => diffsWithin other (.tail diff mem))
      composed.1 restValid with ⟨result, run, resultValid, resultView⟩
    refine ⟨result, run, resultValid, ?_⟩
    rw [resultView, composed.2]
    rfl

/--
Composing a valid diff with one valid on its result succeeds, stays valid on
the base and has the effect of both; and so does the accumulation of any list
of successively valid diffs from the empty diff.
-/
theorem withDiff_composes : (∀ (base : UTXOSet) (this : MutableUTXODiff) (other : UTXODiff),
      SameScoreSameEntry [this.toUTXODiff, other] →
      this.ValidOn base → other.ValidOn (this.view base) →
      ∃ result, withDiff this other = .ok result ∧ result.ValidOn base ∧
        result.view base = other.view (this.view base)) ∧
    (∀ (base : UTXOSet) (diffs : List UTXODiff),
      SameScoreSameEntry diffs → SuccessivelyValid base diffs → ∃ result,
        withDiffsInPlace MutableUTXODiff.newMutableUTXODiff diffs =
          (result, none) ∧ result.ValidOn base ∧ result.view base = applyAll base diffs) := by
  constructor
  · intro base this other coherent thisValid otherValid
    rcases withDiff_of_checks (checks_of_valid thisValid otherValid) with ⟨result, success, merged⟩
    have composed := withDiffResult_of_valid coherent (within_entriesAt (.head _))
      (within_entriesAt (.tail _ (.head _))) thisValid otherValid
    rw [← merged] at composed
    exact ⟨result, success, composed⟩
  · intro base diffs coherent diffsValid
    rcases withDiffsInPlace_of_valid coherent diffs MutableUTXODiff.newMutableUTXODiff
      (fun _ => cell_new_within _ _) (fun diff member => within_entriesAt member)
      (UTXODiff.validOn_empty base) diffsValid with ⟨result, run, valid, viewEq⟩
    exact ⟨result, run, valid, viewEq⟩

/-- A coin restamped from score 5 to 7 and then to 9. -/
theorem withDiff_composes_restamps : (∃ result,
      withDiff (MutableUTXODiff.ofDiff (restamp 5 7)) (restamp 7 9) =
        .ok result ∧ result.ValidOn (coinbaseSet 5) ∧ result.view (coinbaseSet 5) =
        (restamp 7 9).view ((restamp 5 7).view (coinbaseSet 5))) ∧ (∃ result,
      withDiffsInPlace MutableUTXODiff.newMutableUTXODiff
        [restamp 5 7, restamp 7 9] = (result, none) ∧
      result.ValidOn (coinbaseSet 5) ∧ result.view (coinbaseSet 5) =
        applyAll (coinbaseSet 5) [restamp 5 7, restamp 7 9]) := by
  have secondValid : (restamp 7 9).ValidOn ((restamp 5 7).view (coinbaseSet 5)) := by
    rw [view_restamp]
    exact restamp_validOn 7 9
  have coherent := restamps_same [(5, 7), (7, 9)]
  exact ⟨withDiff_composes.1 (coinbaseSet 5) (.ofDiff (restamp 5 7))
      (restamp 7 9) coherent (restamp_validOn 5 7) secondValid, withDiff_composes.2 (coinbaseSet 5)
      [restamp 5 7, restamp 7 9] coherent ⟨restamp_validOn 5 7, secondValid, trivial⟩⟩

/-! ## Difference and reversal -/

/-- The diff between two valid separated diffs over one base. -/
theorem diffFromResult_of_valid (coherent : SameScoreSameEntry [this, other])
    (thisSep : this.Separated) (otherSep : other.Separated) (valid : this.ValidOn base)
    (valid' : other.ValidOn base) : diffFrom this other = .ok (diffFromResult this other) ∧
    (diffFromResult this other).ValidOn (this.view base) ∧
    (diffFromResult this other).view (this.view base) = other.view base ∧ ∀ point,
    (withDiffResult this (diffFromResult this other)).cell point = other.cell point := by
  have thisCells := this.separated_iff.mp thisSep
  have otherCells := other.separated_iff.mp otherSep
  have checks : diffFromChecks this other = none := by
    rw [diffFrom_eq_none]
    intro point entryA entryB clash
    exact absurd clash ((valid point).not_diffClash (thisCells point) (otherCells point)
      (valid' point) entryA entryB)
  have cells : ∀ point, ((diffFromResult this other).cell point).ValidOn
          ((this.cell point).apply (base point)) ∧ ((diffFromResult this other).cell point).apply
          ((this.cell point).apply (base point)) = (other.cell point).apply (base point) ∧
          Cell.merge UTXOEntry.blockDAAScore (this.cell point)
          ((diffFromResult this other).cell point) = other.cell point := by
    intro point
    rw [cell_diffFromResult]
    exact (valid point).diff (coherent point) (within_entriesAt (.head _) point)
      (within_entriesAt (.tail _ (.head _)) point)
      (thisCells point) (otherCells point) (valid' point)
  refine ⟨diffFrom_of_checks checks, fun point => (cells point).1, ?_, ?_⟩
  · funext point
    exact (cells point).2.1
  · intro point
    rw [cell_withDiffResult]
    exact (cells point).2.2

/--
The diff between two separated diffs valid on one base succeeds, is valid on
the first set, leads to the second, and composes with the first diff to the
second; and a reversed diff leads back to the base.
-/
theorem diffFrom_connects : (∀ (base : UTXOSet) (this other : MutableUTXODiff),
      SameScoreSameEntry [this.toUTXODiff, other.toUTXODiff] → this.Separated → other.Separated →
      this.ValidOn base → other.ValidOn base →
      ∃ diff, diffFrom this.toUTXODiff other.toUTXODiff = .ok diff ∧ diff.ValidOn (this.view base) ∧
        diff.view (this.view base) = other.view base ∧
        ∃ result, withDiff this diff = .ok result ∧ ∀ outpoint,
            result.toAdd.get outpoint = other.toAdd.get outpoint ∧
            result.toRemove.get outpoint = other.toRemove.get outpoint) ∧
    (∀ (base : UTXOSet) (diff : UTXODiff), diff.ValidOn base →
      diff.reversed.ValidOn (diff.view base) ∧ diff.reversed.view (diff.view base) = base) := by
  constructor
  · intro base this other coherent thisSeparated otherSeparated thisValid otherValid
    rcases diffFromResult_of_valid coherent thisSeparated otherSeparated
      thisValid otherValid with ⟨success, valid, viewEq, cells⟩
    rcases withDiff_of_checks (checks_of_valid thisValid valid) with ⟨result, merges, merged⟩
    refine ⟨_, success, valid, viewEq, result, merges, ?_⟩
    intro outpoint
    have cell := cells outpoint
    rw [← merged] at cell
    exact ⟨congrArg Cell.add cell, congrArg Cell.remove cell⟩
  · intro base diff valid
    exact valid.reversed

/-- Two branches that restamp one coin differently. -/
theorem diffFrom_connects_restamps : (∃ diff, diffFrom (restamp 5 7) (restamp 5 9) = .ok diff ∧
      diff.ValidOn ((restamp 5 7).view (coinbaseSet 5)) ∧
      diff.view ((restamp 5 7).view (coinbaseSet 5)) =
        (restamp 5 9).view (coinbaseSet 5) ∧ ∃ result,
        withDiff (MutableUTXODiff.ofDiff (restamp 5 7)) diff = .ok result ∧ ∀ outpoint,
          result.toAdd.get outpoint = (restamp 5 9).toAdd.get outpoint ∧
          result.toRemove.get outpoint = (restamp 5 9).toRemove.get outpoint) ∧
    ((restamp 5 7).reversed.ValidOn ((restamp 5 7).view (coinbaseSet 5)) ∧
      (restamp 5 7).reversed.view ((restamp 5 7).view (coinbaseSet 5)) = coinbaseSet 5) :=
  ⟨diffFrom_connects.1 (coinbaseSet 5) (.ofDiff (restamp 5 7)) (.ofDiff (restamp 5 9))
      (restamps_same [(5, 7), (5, 9)]) (restamp_sep (by decide)) (restamp_sep (by decide))
      (restamp_validOn 5 7) (restamp_validOn 5 9), diffFrom_connects.2 (coinbaseSet 5) (restamp 5 7)
      (restamp_validOn 5 7)⟩

end Htnd.Utxo.UtxoSet
