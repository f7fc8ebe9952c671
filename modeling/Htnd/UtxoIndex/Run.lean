import Htnd.Utxo.UtxoSet
import Htnd.UtxoIndex.Answers

/-!
# Runs of the UTXO index

An index is rebuilt from virtual's UTXO set once and then follows virtual by
updates; it may be rebuilt again at any time.  A diff that reaches the index
after a rebuild may be reflected in the set already, wholly or in part.

In every run in which coins of different scripts have different keys and the
sums fit their types, whether a script has coins and the circulating supply
are right after each commit.  The coins and the balance of a script are right
exactly when no coin of another script is kept under the path of its bucket.
-/

namespace Htnd.UtxoIndex.Run

open Lib.Fallible Lib.StampedCell Utxo.Entry Utxo.MutableDiff
open Utxo.UtxoSet Keys Store Coins Commit Staging Rebuild Answers

inductive Step where
  | update (virtualChangeSet : VirtualChangeSet)
  | reset (virtualUTXOs : List UTXOPair) (virtualParents : List DomainHash)

namespace Step

def perform (decoders : Decoders) (step : Step) (uis : UtxoIndexStore) :
    Except IndexError UtxoIndexStore :=
  match step with
  | .update virtualChangeSet => Store.update decoders virtualChangeSet uis
  | .reset virtualUTXOs virtualParents => Store.reset decoders virtualUTXOs virtualParents uis

/-- Virtual's UTXO set after the step. -/
def virtualAfter (step : Step) (virtual : UTXOCollection) : UTXOCollection :=
  match step with
  | .update virtualChangeSet => applyDiff virtual virtualChangeSet.virtualUTXODiff
  | .reset _ _ => virtual

/--
The step is one of the virtual set: the diff is valid on it or reflected in
it, and a rebuild reads it.
-/
def OfVirtual (step : Step) (virtual : UTXOCollection) : Prop :=
  match step with
  | .update virtualChangeSet => Applicable virtualChangeSet.virtualUTXODiff virtual
  | .reset virtualUTXOs _ => Lists virtualUTXOs virtual

def coins (step : Step) (virtual : UTXOCollection) : CoinSet :=
  match step with
  | .update virtualChangeSet => coinsWith virtual virtualChangeSet.virtualUTXODiff
  | .reset _ _ => coinsHeld virtual

end Step

/-- The counts and sums of a collection fit their types. -/
def Fits (virtual : UTXOCollection) : Prop := CountsFit virtual ∧ SupplyFits virtual

/-- Perform the steps one after the other. -/
def run (decoders : Decoders) (steps : List Step) (uis : UtxoIndexStore) :
    Except IndexError UtxoIndexStore :=
  steps.foldlM (fun uis step => step.perform decoders uis) uis

/-- Virtual's UTXO set after the steps. -/
def virtualAfter (virtual : UTXOCollection) (steps : List Step) :
    UTXOCollection :=
  steps.foldl (fun virtual step => step.virtualAfter virtual) virtual

/--
Every step is one of the virtual set of its moment, the keys of the coins it
handles differ, and the set it leads to fits.
-/
def StepsMeet : UTXOCollection → List Step → Prop
  | _, [] => True
  | virtual, step :: steps =>
    step.OfVirtual virtual ∧ KeysDiffer (step.coins virtual) ∧ Fits (step.virtualAfter virtual) ∧
      StepsMeet (step.virtualAfter virtual) steps

variable {decoders : Decoders} {uis : UtxoIndexStore}
  {virtual : UTXOCollection} {step : Step} {steps : List Step}

structure Reached (uis : UtxoIndexStore) (virtual : UTXOCollection) : Prop where
  synced : Synced uis virtual
  differ : KeysDiffer (coinsHeld virtual)
  fits : Fits virtual

/-- The coins after a step are among those it handles. -/
theorem coinsHeld_virtualAfter (step : Step) (virtual : UTXOCollection) (point : DomainOutpoint)
    (script : ScriptPublicKey) (isCoin : coinsHeld (step.virtualAfter virtual) point script) :
    step.coins virtual point script := by
  cases step with
  | reset virtualUTXOs parents => exact isCoin
  | update changeSet =>
    rcases isCoin with ⟨entry, isScript, held⟩
    refine ⟨entry, isScript, ?_⟩
    rw [Step.virtualAfter, lookup_applyDiff] at held
    cases isAdded : changeSet.virtualUTXODiff.toAdd.lookup point with
    | some added =>
      have isCell : (changeSet.virtualUTXODiff.cell point).add = some added := isAdded
      rw [Cell.apply, isCell] at held
      exact .inr (.inl held)
    | none =>
      have isCell : (changeSet.virtualUTXODiff.cell point).add = none := isAdded
      rw [Cell.apply, isCell] at held
      cases isGone : (changeSet.virtualUTXODiff.cell point).remove with
      | some gone =>
        rw [isGone] at held
        cases held
      | none =>
        rw [isGone] at held
        exact .inl held

/-- One step keeps the index in step with the virtual set. -/
theorem perform_ok (decoders : Decoders) (meets : Reached uis virtual)
    (ofVirtual : step.OfVirtual virtual) (differ : KeysDiffer (step.coins virtual))
    (fits : Fits (step.virtualAfter virtual)) : ∃ next, step.perform decoders uis = .ok next ∧
    Reached next (step.virtualAfter virtual) := by
  have differAfter : KeysDiffer (coinsHeld (step.virtualAfter virtual)) :=
    differ.mono (coinsHeld_virtualAfter step virtual)
  cases step with
  | update changeSet =>
    rcases update_ok decoders meets.synced ofVirtual differ
      meets.fits.1 fits.1 with ⟨next, updated, synced⟩
    exact ⟨next, updated, synced, differAfter, fits⟩
  | reset virtualUTXOs parents =>
    rcases reset_ok decoders ofVirtual differ fits.1 parents
      meets.synced.noAdditions meets.synced.noRemovals with ⟨next, rebuilt, synced⟩
    exact ⟨next, rebuilt, synced, differAfter, fits⟩

/-- A run keeps the index in step with the virtual set. -/
theorem run_ok (decoders : Decoders) (meets : Reached uis virtual)
    (meet : StepsMeet virtual steps) : ∃ last, run decoders steps uis = .ok last ∧
    Reached last (virtualAfter virtual steps) := by
  induction steps generalizing uis virtual with
  | nil => exact ⟨uis, rfl, meets⟩
  | cons step steps ih =>
    rcases meet with ⟨ofVirtual, differ, fits, meet⟩
    rcases perform_ok decoders meets ofVirtual differ fits with ⟨_, performed, isNext⟩
    rcases ih isNext meet with ⟨last, isRun, isLast⟩
    refine ⟨last, ?_, isLast⟩
    rw [run, List.foldlM_cons, ok_bind performed]
    exact isRun

/--
The index is rebuilt from a virtual set and then follows it.  No step fails.
After the last one, the circulating supply is the sum of all amounts, every
script is said to have coins exactly when it has some, and the coins and the
balance of a script are returned exactly when no coin of another script is kept
under the path of its bucket.
-/
theorem run_answers_right (decoders : Decoders) (database : Database)
    (virtual : UTXOCollection) (virtualUTXOs : List UTXOPair)
    (virtualParents : List DomainHash) (steps : List Step)
    (meet : StepsMeet virtual (.reset virtualUTXOs virtualParents :: steps)) :
    ∃ last, run decoders (.reset virtualUTXOs virtualParents :: steps)
          (newUTXOIndexStore database) = .ok last ∧
        SupplyRight last (virtualAfter virtual steps) ∧ ∀ script,
          HasUTXOsRight last (virtualAfter virtual steps) script ∧
          (UTXOsRight decoders last (virtualAfter virtual steps) script ∧
              BalanceRight decoders last (virtualAfter virtual steps) script ↔
            Separate (virtualAfter virtual steps) script) := by
  rcases meet with ⟨lists, differ, fits, meet⟩
  rcases reset_ok decoders lists differ fits.1 virtualParents
    (show (newUTXOIndexStore database).toAdd = ∅ from rfl) rfl with ⟨rebuilt, isRebuilt, synced⟩
  rcases run_ok decoders ⟨synced, differ, fits⟩ meet with ⟨last, isRun, reached⟩
  refine ⟨last, ?_, supply_right reached.synced reached.fits.2, ?_⟩
  · exact (ok_bind isRebuilt _).trans isRun
  · intro script
    refine ⟨hasUTXOs_right reached.synced script, ?_⟩
    have isRight := utxosRight_iff reached.synced reached.fits.1 reached.differ decoders script
    constructor
    · exact fun both => isRight.mp both.1
    · exact fun separate => ⟨isRight.mpr separate,
        balance_right reached.synced reached.fits.2 separate decoders⟩

/-! ## Two instances -/

/-- The collection that holds one coinbase coin. -/
def oneCoin (daaScore : UInt64) : UTXOCollection :=
  AList.singleton coinbaseOutpoint (coinbaseCoin daaScore)

/-- The change that moves the coin to another DAA score. -/
def restamping (oldScore newScore : UInt64) : VirtualChangeSet :=
  ⟨restamp oldScore newScore, [], false⟩

variable (daaScore : UInt64) (oldScore newScore : UInt64)

theorem lookup_oneCoin (point : DomainOutpoint) :
    (oneCoin daaScore).lookup point = coinbaseSet daaScore point :=
  get_coinbaseCoin daaScore point

theorem applicable_restamp : Applicable (restamp oldScore newScore) (oneCoin oldScore) := by
  intro point
  rw [lookup_oneCoin]
  exact .inl (restamp_validOn oldScore newScore point)

theorem applicable_restamp_again : Applicable (restamp oldScore newScore) (oneCoin newScore) := by
  intro _
  right
  rw [lookup_oneCoin, cell_restamp, coinbaseSet]
  split_ifs
  · rfl
  · rfl

/-- Coins of one script have different keys. -/
theorem keysDiffer_of_script {coins : CoinSet} (script : ScriptPublicKey)
    (isScript : ∀ point other, coins point other → other = script) : KeysDiffer coins := by
  intro point first other second isFirst isSecond _
  rw [isScript point first isFirst, isScript other second isSecond]

theorem script_of_set {daaScore : UInt64} {point : DomainOutpoint}
    {entry : UTXOEntry} (held : coinbaseSet daaScore point = some entry) :
    entry.scriptPublicKey = (coinbaseCoin 0).scriptPublicKey := by
  rw [eq_coinbaseCoin held]
  rfl

theorem fits_oneCoin : Fits (oneCoin daaScore) := by
  constructor
  · intro _
    rw [countOf_eq_length]
    refine Nat.lt_of_le_of_lt (m := 1) ?_ (by decide)
    rw [coinsOf, List.length_map]
    exact List.length_filter_le _ _
  · exact (by decide : (50 : Nat) < 2 ^ 64)

/-- The coins met when the coin is restamped have one script. -/
theorem keysDiffer_restamp (oldScore newScore daaScore : UInt64) :
    KeysDiffer (coinsWith (oneCoin daaScore) (restamp oldScore newScore)) := by
  apply keysDiffer_of_script (coinbaseCoin 0).scriptPublicKey
  rintro point _ ⟨_, rfl, held | isAdded | isGone⟩
  · exact script_of_set ((lookup_oneCoin _ point).symm.trans held)
  · exact script_of_set ((lookup_oneCoin _ point).symm.trans isAdded)
  · exact script_of_set ((lookup_oneCoin _ point).symm.trans isGone)

theorem keysDiffer_oneCoin : KeysDiffer (coinsHeld (oneCoin daaScore)) := by
  apply (keysDiffer_restamp daaScore daaScore daaScore).mono
  rintro _ _ ⟨entry, isScript, held⟩
  exact ⟨entry, isScript, .inl held⟩

/-- A rebuild, a restamped coin, and the same change once more. -/
theorem run_answers_right_restamped : StepsMeet (oneCoin 5)
        [.reset [⟨coinbaseOutpoint, coinbaseCoin 5⟩] [],
          .update (restamping 5 7), .update (restamping 5 7)] ∧ ∃ last,
        run canonicalDecoders [.reset [⟨coinbaseOutpoint, coinbaseCoin 5⟩] [],
              .update (restamping 5 7), .update (restamping 5 7)]
            (newUTXOIndexStore ∅) = .ok last ∧ SupplyRight last (oneCoin 7) ∧
          ∀ script, HasUTXOsRight last (oneCoin 7) script ∧
            (UTXOsRight canonicalDecoders last (oneCoin 7) script ∧
                BalanceRight canonicalDecoders last (oneCoin 7) script ↔
              Separate (oneCoin 7) script) := by
  have once : applyDiff (oneCoin 5) (restamp 5 7) = oneCoin 7 := AList.ext (by decide +kernel)
  have again : applyDiff (oneCoin 7) (restamp 5 7) = oneCoin 7 := AList.ext (by decide +kernel)
  have after : virtualAfter (oneCoin 5)
      [.update (restamping 5 7), .update (restamping 5 7)] = oneCoin 7 := by
    change applyDiff (applyDiff (oneCoin 5) (restamp 5 7)) (restamp 5 7) = _
    rw [once, again]
  have meet : StepsMeet (oneCoin 5) [.reset [⟨coinbaseOutpoint, coinbaseCoin 5⟩] [],
      .update (restamping 5 7), .update (restamping 5 7)] := by
    refine ⟨List.Perm.refl _, keysDiffer_oneCoin 5, fits_oneCoin 5, ?_⟩
    refine ⟨applicable_restamp 5 7, keysDiffer_restamp 5 7 5, ?_⟩
    refine ⟨fits_oneCoin 7, applicable_restamp_again 5 7, keysDiffer_restamp 5 7 7, ?_, trivial⟩
    change Fits (applyDiff (oneCoin 7) (restamp 5 7))
    exact fits_oneCoin 7
  refine ⟨meet, ?_⟩
  have answers := run_answers_right canonicalDecoders ∅ (oneCoin 5)
    [⟨coinbaseOutpoint, coinbaseCoin 5⟩] []
    [.update (restamping 5 7), .update (restamping 5 7)] meet
  rwa [after] at answers

/-- The script of the coin with a slash after it. -/
def slashedScript : ScriptPublicKey := ⟨[0x51, 0x2f], 0, by decide⟩

/--
The only coin has the script `51`.  Asked for the script `51 2f`, which has no
coin, the index returns that coin and its amount, since both scripts have the
same bucket.
-/
theorem coin_of_another_script : Lists [⟨coinbaseOutpoint, coinbaseCoin 5⟩] (oneCoin 5) ∧
      coinsOf (oneCoin 5) slashedScript = [] ∧ (run canonicalDecoders
          [.reset [⟨coinbaseOutpoint, coinbaseCoin 5⟩] []] (newUTXOIndexStore ∅) >>= fun last =>
        utxos canonicalDecoders last slashedScript 0) =
        .ok [⟨coinbaseOutpoint, coinbaseCoin 5⟩] ∧ (run canonicalDecoders
          [.reset [⟨coinbaseOutpoint, coinbaseCoin 5⟩] []] (newUTXOIndexStore ∅) >>= fun last =>
        getBalance canonicalDecoders last slashedScript) = .ok 50 := by
  refine ⟨List.Perm.refl _, ?_, ?_, ?_⟩
  · decide +kernel
  · decide +kernel
  · decide +kernel

end Htnd.UtxoIndex.Run
