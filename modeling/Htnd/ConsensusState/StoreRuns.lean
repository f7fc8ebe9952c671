import Htnd.ConsensusState.StagedReads

/-!
# Runs of the consensus state store

Whatever diffs are committed, sets imported and outpoints looked up, and
however often the node restarts, the store answers as the one UTXO set that
the commits and imports describe.
-/

namespace Htnd.ConsensusState.StoreRuns

open Lib.RangeLoops Utxo.Entry Utxo.MutableDiff Utxo.UtxoSet UtxoKeys
open VirtualUtxoStore StagedReads List

variable (css : ConsensusStateStore) (decoder : EntryDecoder)

/-- A new process has an empty cache over the same database. -/
def restart (capacity : Int) (victims : Nat → DomainOutpoint) : ConsensusStateStore where
  __ := css
  virtualUTXOSetCache := ⟨∅, capacity, victims⟩

/-- `ImportPruningPointUTXOSetIntoVirtualUTXOSet` of what an iterator lists. -/
def importUTXOSet (pairs : List (DomainOutpoint × UTXOEntry)) : ConsensusStateStore where
  __ := css
  virtualUTXOSetCache := { css.virtualUTXOSetCache with cache := ∅ }
  database := pairs.foldl (fun db pair => db.insert (css.utxoKey pair.1)
    (serializeUTXOEntry pair.2)) ((css.database.keys.filter css.utxoSetKeyPrefix.isPrefixOf).foldl
    (fun db key => db.erase key) css.database)

/-- `UTXOsByOutpointsWithoutPopulatingCache`. -/
def utxosByOutpoints (isCursorRanger : Bool) (staged : Option UTXODiff)
    (outpoints : List DomainOutpoint) (entries : List (Option UTXOEntry)) :
    Except StoreError (List (Option UTXOEntry)) :=
  if entries.length ≠ outpoints.length then
    .error (.entriesLength entries.length outpoints.length)
  else
    (css.prepareOrderedVirtualUTXOKeys outpoints).bind fun ordered =>
      css.utxosByOrderedKeysWithoutPopulatingCache decoder isCursorRanger staged outpoints ordered
      entries none

/-- The calls that change the store; an import fails if it was not started. -/
inductive Call
  | commit (diff : UTXODiff)
  | lookup (staged : Option UTXODiff) (outpoint : DomainOutpoint) (populateCacheOnMiss : Bool)
  | importSet (hadStarted : Bool) (pairs : List (DomainOutpoint × UTXOEntry))
  | restart (capacity : Int) (victims : Nat → DomainOutpoint)

def step : Call → ConsensusStateStore
  | .commit diff => css.commitVirtualUTXODiff (some diff)
  | .lookup staged outpoint populate => (css.lookupUTXO decoder staged outpoint populate).1
  | .importSet hadStarted pairs =>
    if hadStarted then importUTXOSet css pairs else css
  | .restart capacity victims => restart css capacity victims

/-- The set of the listed coins; of two at one outpoint the later counts. -/
def listedSet (pairs : List (DomainOutpoint × UTXOEntry)) : UTXOSet :=
  pairs.foldl (fun set pair => Function.update set pair.1 (some pair.2)) fun _ => none

/-- What a call does to the set. -/
def Call.apply (set : UTXOSet) : Call → UTXOSet
  | commit diff => diff.view set
  | importSet true pairs => listedSet pairs
  | _ => set

theorem represents_import (pairs : List (DomainOutpoint × UTXOEntry)) :
    Represents (importUTXOSet css pairs) (listedSet pairs) where
  stored point := by
    change AList.lookup (css.utxoKey point) (foldl _ _ pairs) = _
    induction pairs using reverseRecOn with
    | nil =>
      rw [foldl_nil, lookup_eraseEach]
      split_ifs with listed
      · rfl
      · refine AList.lookup_eq_none.mpr fun there => listed ?_
        rw [mem_filter, isPrefixOf_iff_prefix]
        exact ⟨AList.mem_keys.mp there, prefix_append _ _⟩
    | append_singleton pairs pair ih =>
      rw [foldl_append, listedSet, foldl_append]
      refine (insert_ite ..).trans ?_
      simp only [utxoKey_inj, ih]
      change _ = Option.map _ (Function.update (listedSet pairs) _ _ point)
      rw [Function.update_apply]
      split_ifs <;> rfl
  cached := nofun

/-- The keys are encoded without an error, sorted, each with its index. -/
theorem prepared (outpoints : List DomainOutpoint) : ∃ ordered,
    css.prepareOrderedVirtualUTXOKeys outpoints = .ok ordered ∧ Prepared css outpoints ordered := by
  have encodes : css.encodeKey = fun point => pure (css.utxoKey point) := by
    funext point
    exact if_neg (length_serializeOutpoint_le point).not_gt
  refine ⟨_, ?_, pairwise_insertionSort _ _, perm_insertionSort _ _⟩
  rw [ConsensusStateStore.prepareOrderedVirtualUTXOKeys, encodes, mapM_pure]
  rfl

variable {css} {base : UTXOSet}

theorem represents_step (represents : Represents css base) (call : Call) :
    Represents (step css decoder call) (call.apply base) := by
  cases call with
  | commit diff => exact represents.commit diff
  | lookup staged point populate =>
    exact (lookupUTXO_spec decoder represents staged point populate).2
  | importSet hadStarted pairs =>
    cases hadStarted with
    | false => exact represents
    | true => exact represents_import css pairs
  | restart capacity victims => exact ⟨represents.stored, nofun⟩

theorem represents_run (represents : Represents css base) (calls : List Call) :
    Represents (calls.foldl (step · decoder) css) (calls.foldl Call.apply base) := by
  induction calls generalizing css base with
  | nil => exact represents
  | cons call calls ih => exact ih (represents_step decoder represents call)

/--
After any calls the single lookups, with and without the cache, and the bulk
lookup through ordered keys give what the one set holds, read through the
staged diff; the bulk lookup fails only for a result slice of another length.
-/
theorem answers_after_calls (capacity : Int) (victims : Nat → DomainOutpoint)
    (path : List UInt8) (calls : List Call) (staged : Option UTXODiff) :
    let css := calls.foldl (step · decoder) ⟨⟨∅, capacity, victims⟩, path, ∅⟩
    let set := readView staged (calls.foldl Call.apply fun _ => none)
    (∀ outpoint, css.hasUTXOByOutpoint staged outpoint = (set outpoint).isSome ∧
      ∀ populate, (css.lookupUTXO decoder staged outpoint populate).2 = .ok (set outpoint)) ∧
    ∀ isCursorRanger outpoints entries,
      utxosByOutpoints css decoder isCursorRanger staged outpoints entries =
        if entries.length ≠ outpoints.length then
          .error (.entriesLength entries.length outpoints.length)
        else .ok (outpoints.map set) := by
  intro css set
  have fresh : Represents ⟨⟨∅, capacity, victims⟩, path, ∅⟩ fun _ => none := ⟨fun _ => rfl, nofun⟩
  have represents := represents_run decoder fresh calls
  refine ⟨fun outpoint => ⟨hasUTXOByOutpoint_eq represents staged outpoint,
    fun populate => (lookupUTXO_spec decoder represents staged outpoint populate).1⟩, ?_⟩
  intro isCursorRanger outpoints entries
  rw [utxosByOutpoints]
  split_ifs with same
  · rfl
  rcases prepared css outpoints with ⟨ordered, isOrdered, isPrepared⟩
  rw [isOrdered]
  change css.utxosByOrderedKeysWithoutPopulatingCache _ _ _ _ _ _ none = _
  refine utxosByOrderedKeys_spec decoder represents isCursorRanger staged
    isPrepared (not_not.mp same) ?_
  exact nofun

end Htnd.ConsensusState.StoreRuns
