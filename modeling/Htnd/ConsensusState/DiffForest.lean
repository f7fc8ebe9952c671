import Htnd.Lib.PointerForest
import Htnd.ConsensusState.UtxoDiffs
import Htnd.Utxo.DiffRun

/-!
# Exact forests of diffs

The purpose of the stored diffs.  A forest is exact for an assignment of past
UTXO sets to blocks when every stored diff is valid on the set its diff child
stands for and leads from it to the block's own past, and when all routes along
diff children end at one root.  In an exact forest `restorePastUTXO` returns,
for every stored block, a diff whose view over virtual's set is the block's
past.
-/

namespace Htnd.ConsensusState.DiffForest

open Lib.StampedCell Lib.PointerForest Utxo.Entry Utxo.MutableDiff
open Utxo.DiffAlgebra Utxo.UtxoSet Utxo.DiffRun UtxoDiffs MutableUTXODiff

/-- The diff is valid on one set and leads to the other. -/
structure ExactDiff (diff : UTXODiff) (base target : UTXOSet) : Prop where
  valid : diff.ValidOn base
  leads : diff.view base = target

variable {diff : UTXODiff} {block : DomainHash}

variable {base target : UTXOSet}

theorem ExactDiff.reversed (exactly : ExactDiff diff base target) :
    ExactDiff diff.reversed target base := by
  have back := exactly.valid.reversed
  rw [exactly.leads] at back
  exact ⟨back.1, back.2⟩

/-- What an exact diff mentions is held before or after. -/
theorem ExactDiff.within (exactly : ExactDiff diff base target)
    {point : DomainOutpoint} {values : Set UTXOEntry} (baseIn : ∀ entry, base point = some entry →
    entry ∈ values) (targetIn : ∀ entry, target point = some entry → entry ∈ values) :
    (diff.cell point).Within values := by
  constructor
  · intro entry added
    apply targetIn
    rw [← exactly.leads]
    simp only [UTXODiff.view, Cell.apply, added]
  · intro entry gone
    exact baseIn entry ((exactly.valid point).removed entry gone)

/-- The set a diff child stands for: virtual's set if there is no child. -/
def baseOf (virtualSet : UTXOSet) (past : DomainHash → UTXOSet) : Option DomainHash → UTXOSet
  | none => virtualSet
  | some child => past child

/-- A forest of diffs that is exact for the given pasts. -/
structure ExactForest (store : UTXODiffStore) (virtualSet : UTXOSet)
    (past : DomainHash → UTXOSet) (root : DomainHash) : Prop where
  exactDiff : ∀ block diff, store.diffs.lookup block = some diff →
    ExactDiff diff (baseOf virtualSet past (store.utxoDiffChild block)) (past block)
  routed : ∀ block, store.Stored block → Route store.utxoDiffChild store.Stored block root
  notVirtual : ¬ store.Stored virtualBlockHash
  notVirtualGenesis : ¬ store.Stored virtualGenesisBlockHash

/-- The entries virtual or a stored block holds at an outpoint. -/
def heldAt (store : UTXODiffStore) (virtualSet : UTXOSet)
    (past : DomainHash → UTXOSet) (outpoint : DomainOutpoint) : Set UTXOEntry :=
  { entry | virtualSet outpoint = some entry ∨
    ∃ block, store.Stored block ∧ past block outpoint = some entry }

/--
The assumption documented at `diffFrom`, on the sets: entries held at one
outpoint with the same DAA score are equal.
-/
def Coherent (store : UTXODiffStore) (virtualSet : UTXOSet) (past : DomainHash → UTXOSet) : Prop :=
  ∀ outpoint, Set.InjOn UTXOEntry.blockDAAScore (heldAt store virtualSet past outpoint)

theorem successivelyValid_append {first second : List UTXODiff}
    (firstValid : SuccessivelyValid base first) (secondValid :
    SuccessivelyValid (applyAll base first) second) : SuccessivelyValid base (first ++ second) := by
  induction first generalizing base with
  | nil => exact secondValid
  | cons diff rest ih => exact ⟨firstValid.1, ih firstValid.2 secondValid⟩

/-- What the walk from a block collects. -/
structure CollectedPast (store : UTXODiffStore) (virtualSet : UTXOSet)
    (past : DomainHash → UTXOSet) (block : DomainHash) (diffs : List UTXODiff) : Prop where
  valid : SuccessivelyValid virtualSet diffs.reverse
  leads : applyAll virtualSet diffs.reverse = past block
  within : ∀ diff ∈ diffs, ∀ outpoint, (diff.cell outpoint).Within
    (heldAt store virtualSet past outpoint)

variable {store : UTXODiffStore} {virtualSet : UTXOSet}
  {past : DomainHash → UTXOSet} {root : DomainHash}

theorem stored_lookup (stored : store.Stored block) : ∃ diff, store.diffs.lookup block = some diff ∧
    store.utxoDiff block = some diff := by
  rcases Option.isSome_iff_exists.mp stored with ⟨diff, lookup⟩
  refine ⟨diff, lookup, ?_⟩
  rw [UTXODiffStore.utxoDiff, lookup, Option.some_or]

/-- Along a route the walk ends and collects the block's past. -/
theorem collectDiffs_of_route (forest : ExactForest store virtualSet past root)
    (route : Route store.utxoDiffChild store.Stored block root) : ∃ diffs enough,
    (∀ rounds, enough ≤ rounds → collectDiffs store rounds block = some diffs) ∧
    CollectedPast store virtualSet past block diffs := by
  induction route with
  | @root block stored last =>
    rcases stored_lookup stored with ⟨diff, lookup, read⟩
    have exactly := forest.exactDiff block diff lookup
    rw [last] at exactly
    refine ⟨[diff], 1, ?_, ⟨exactly.valid, trivial⟩, exactly.leads, ?_⟩
    · intro rounds enough
      cases rounds with
      | zero => exact absurd enough (Nat.not_succ_le_zero 0)
      | succ rounds =>
        rw [collectDiffs, read]
        rw [last]
    · intro other mem point
      rw [List.mem_singleton.mp mem]
      exact exactly.within (fun entry held => .inl held)
        fun entry held => .inr ⟨block, stored, held⟩
  | @step block child root stored points rest ih =>
    rcases stored_lookup stored with ⟨diff, lookup, read⟩
    have exactly := forest.exactDiff block diff lookup
    rw [points] at exactly
    rcases ih forest with ⟨diffs, enough, walk, taken⟩
    refine ⟨diff :: diffs, enough + 1, ?_, ?_, ?_, ?_⟩
    · intro rounds more
      cases rounds with
      | zero => exact absurd more (Nat.not_succ_le_zero enough)
      | succ rounds =>
        rw [collectDiffs, read]
        rw [points]
        dsimp only
        rw [walk rounds (Nat.le_of_succ_le_succ more), Option.map_some]
    · rw [List.reverse_cons]
      refine successivelyValid_append taken.valid ?_
      rw [taken.leads]
      exact ⟨exactly.valid, trivial⟩
    · have leads := taken.leads
      rw [applyAll] at leads
      rw [List.reverse_cons, applyAll, List.foldl_append, leads]
      exact exactly.leads
    · intro other mem point
      rcases List.mem_cons.mp mem with rfl | inRest
      · exact exactly.within (fun entry held => .inr ⟨child, rest.good, held⟩)
          fun entry held => .inr ⟨block, stored, held⟩
      · exact taken.within other inRest point

theorem withDiffsInPlace_sep {acc : MutableUTXODiff} (sep : acc.Separated) (diffs : List UTXODiff) :
    (withDiffsInPlace acc diffs).1.Separated := by
  induction diffs generalizing acc with
  | nil => exact sep
  | cons diff rest ih =>
    have next := withDiffInPlace_sep sep diff
    rw [withDiffsInPlace]
    cases outcome : withDiffInPlace acc diff with
    | mk after err =>
      rw [outcome] at next
      cases err with
      | none => exact ih next
      | some err => exact next

variable {diffs : List UTXODiff}

/-- The accumulation of a collected past. -/
theorem accumulateDiffs_of_collected (coherent : Coherent store virtualSet past)
    (taken : CollectedPast store virtualSet past block diffs) : ∃ result, accumulateDiffs diffs =
    .ok result ∧ ExactDiff result virtualSet (past block) ∧ result.Separated := by
  have start : newMutableUTXODiff.view virtualSet =
      virtualSet := UTXODiff.view_empty virtualSet
  have startSeparated : newMutableUTXODiff.Separated := by nofun
  have separated := withDiffsInPlace_sep startSeparated diffs.reverse
  have valid := taken.valid
  rcases withDiffsInPlace_of_valid coherent diffs.reverse newMutableUTXODiff
    (fun _ => cell_new_within _ _) (fun diff mem => taken.within diff (List.mem_reverse.mp mem))
    (UTXODiff.validOn_empty virtualSet) valid with ⟨result, run, resultValid, resultView⟩
  rw [start, taken.leads] at resultView
  rw [run] at separated
  refine ⟨result.toUTXODiff, ?_, ⟨resultValid, resultView⟩, separated⟩
  rw [accumulateDiffs, run]

/--
The restored past of a stored block: given enough rounds the walk ends, and
its result is an exact diff from virtual's set to the block's past.
-/
def Restores (genesisHash : DomainHash) (store : UTXODiffStore)
    (virtualSet : UTXOSet) (past : DomainHash → UTXOSet) (block : DomainHash) : Prop :=
  ∃ result enough, (∀ rounds, enough ≤ rounds → restorePastUTXO genesisHash store rounds block =
      some (.ok result)) ∧ ExactDiff result virtualSet (past block) ∧ result.Separated

theorem ExactForest.restores (genesisHash : DomainHash)
    (forest : ExactForest store virtualSet past root) (coherent : Coherent store virtualSet past)
    (stored : store.Stored block) : Restores genesisHash store virtualSet past block := by
  rcases collectDiffs_of_route forest (forest.routed block stored) with ⟨_, enough, walk, taken⟩
  rcases accumulateDiffs_of_collected coherent taken with ⟨result, accumulates, exactly, sep⟩
  refine ⟨result, enough, ?_, exactly, sep⟩
  intro rounds more
  have notVirtual : block ≠ virtualBlockHash := by
    rintro rfl
    exact forest.notVirtual stored
  have notVirtualGenesis : block ≠ virtualGenesisBlockHash := by
    rintro rfl
    exact forest.notVirtualGenesis stored
  rw [restorePastUTXO, if_neg notVirtual, if_neg notVirtualGenesis,
    walk rounds more, Option.map_some, accumulates]

/-! ## Writing a diff -/

theorem stored_stage {child : Option DomainHash} {other : DomainHash} :
    (store.stage block diff child).Stored other ↔ other = block ∨ store.Stored other := by
  rw [UTXODiffStore.Stored, UTXODiffStore.lookup_stage]
  split_ifs with same
  · exact iff_of_true rfl (.inl same)
  · exact ⟨.inr, fun either => either.resolve_left same⟩

/-- Writing to a block that is stored stores nothing new. -/
theorem stage_of_stored (stored : store.Stored block) (diff : UTXODiff)
    (child : Option DomainHash) : (store.stage block diff child).Stored = store.Stored := by
  funext other
  rw [stored_stage]
  refine propext ⟨?_, .inr⟩
  rintro (rfl | isStored)
  · exact stored
  · exact isStored

theorem coherent_of_eq {other : UTXODiffStore} (sameDag : other.Stored = store.Stored)
    (coherent : Coherent store virtualSet past) : Coherent other virtualSet past := by
  intro point
  rw [heldAt, sameDag]
  exact coherent point

/-! ## Undoing a chain of diffs -/

theorem reversed_successivelyValid (valid : SuccessivelyValid base diffs) :
    SuccessivelyValid (applyAll base diffs) (diffs.map UTXODiff.reversed).reverse ∧
    applyAll (applyAll base diffs) (diffs.map UTXODiff.reversed).reverse =
        base := by
  induction diffs generalizing base with
  | nil => exact ⟨trivial, rfl⟩
  | cons diff rest ih =>
    rcases ih valid.2 with ⟨restValid, restBack⟩
    have back := valid.1.reversed
    rw [← restBack] at back
    rw [List.map_cons, List.reverse_cons]
    refine ⟨successivelyValid_append restValid ⟨back.1, trivial⟩, ?_⟩
    rw [applyAll, List.foldl_append]
    exact back.2

/--
Composing a chain of diffs and then their reversals, the last one first, meets
no conflict and leaves the set as it was.
-/
theorem withDiffs_undone (base : UTXOSet) (diffs : List UTXODiff)
    (coherent : SameScoreSameEntry diffs) (valid : SuccessivelyValid base diffs) : ∃ result,
      withDiffsInPlace newMutableUTXODiff
          (diffs ++ (diffs.map UTXODiff.reversed).reverse) = (result, none) ∧
        result.ValidOn base ∧ result.view base = base := by
  have back := reversed_successivelyValid valid
  have within : ∀ diff ∈ diffs ++ (diffs.map UTXODiff.reversed).reverse,
      ∀ point, (diff.cell point).Within (entriesAt diffs point) := by
    intro diff mem point
    rcases List.mem_append.mp mem with kept | undone
    · exact within_entriesAt kept point
    · rcases List.mem_map.mp (List.mem_reverse.mp undone) with ⟨one, isIn, rfl⟩
      exact (within_entriesAt isIn point).symm
  rcases withDiffsInPlace_of_valid coherent _ newMutableUTXODiff
    (fun _ => cell_new_within _ _) within (UTXODiff.validOn_empty base)
    (successivelyValid_append valid back.1) with ⟨result, run, isValid, isView⟩
  refine ⟨result, run, isValid, isView.trans ?_⟩
  rw [applyAll, List.foldl_append]
  exact back.2

/-- Two restamps of a coin are undone. -/
theorem withDiffs_undone_restamps : ∃ result,
    withDiffsInPlace newMutableUTXODiff [restamp 5 7, restamp 7 9,
      (restamp 7 9).reversed, (restamp 5 7).reversed] = (result, none) ∧
    result.view (coinbaseSet 5) = coinbaseSet 5 := by
  have second : (restamp 7 9).ValidOn ((restamp 5 7).view (coinbaseSet 5)) := by
    rw [view_restamp]
    exact restamp_validOn 7 9
  rcases withDiffs_undone (coinbaseSet 5) [restamp 5 7, restamp 7 9]
    (restamps_same [(5, 7), (7, 9)])
    ⟨restamp_validOn 5 7, second, trivial⟩ with ⟨result, run, -, isView⟩
  exact ⟨result, run, isView⟩

end Htnd.ConsensusState.DiffForest
