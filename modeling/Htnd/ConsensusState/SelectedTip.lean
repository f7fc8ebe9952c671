import Htnd.ConsensusState.ReverseDiffs
import Htnd.Utxo.TransactionView

/-!
# Moving virtual

When virtual selects another tip, `stageSelectedTipDiffRelativeToVirtual` makes
the tip the root of the diff forest: the old root is re-pointed at it.  Then
`updateSelectedTipUTXODiff` rewrites the tip's diff for the UTXO set virtual
moves to.  Both keep the forest exact for the same pasts, the first over
virtual's set as it is and the second over the set after virtual's own diff is
committed.
-/

namespace Htnd.ConsensusState.SelectedTip

open Relation Lib.PointerForest Utxo.Entry Utxo.MutableDiff
open Utxo.DiffAlgebra Utxo.UtxoSet Utxo.DiffRun UtxoDiffs DiffForest
open ReverseDiffs UTXODiffStore

variable {store : UTXODiffStore} {virtualSet : UTXOSet}
  {past : DomainHash → UTXOSet} {root : DomainHash}

/-! ## Finding the root -/

/-- The walk to the root visits no block twice and ends. -/
theorem findDiffRoot_of_route {tip block : DomainHash}
    (route : Route store.utxoDiffChild store.Stored block root) {seen : List DomainHash}
    (leadHere : ∀ prior ∈ seen, TransGen (fun first second => store.utxoDiffChild first =
    some second) prior block) : ∃ enough, ∀ rounds, enough ≤ rounds →
    findDiffRoot store tip rounds seen block = some (.ok root) := by
  induction route generalizing seen with
  | @root block stored last =>
    have notVisited : block ∉ seen := fun mem =>
      (Route.root stored last).acyclic (leadHere block mem)
    refine ⟨1, fun rounds pos => ?_⟩
    cases rounds with
    | zero => exact absurd pos (Nat.not_succ_le_zero 0)
    | succ rounds => rw [findDiffRoot, if_neg notVisited, last]
  | @step block child root stored points rest ih =>
    have notVisited : block ∉ seen := fun mem =>
      (Route.step stored points rest).acyclic (leadHere block mem)
    have leadToChild : ∀ prior ∈ block :: seen, TransGen (fun first second =>
          store.utxoDiffChild first = some second) prior child := by
      intro prior mem
      rcases List.mem_cons.mp mem with rfl | inVisited
      · exact .single points
      · exact (leadHere prior inVisited).tail points
    rcases ih leadToChild with ⟨enough, ends⟩
    refine ⟨enough + 1, fun rounds more => ?_⟩
    cases rounds with
    | zero => exact absurd more (Nat.not_succ_le_zero enough)
    | succ rounds =>
      rw [findDiffRoot, if_neg notVisited, points]
      exact ends rounds (Nat.le_of_succ_le_succ more)

/-! ## Diffs between exact diffs -/

/-- `DiffFrom` between two exact diffs is the exact diff between the ends. -/
theorem diffFromPast_exact {values : DomainOutpoint → Set UTXOEntry}
    (coherent : ∀ point, Set.InjOn UTXOEntry.blockDAAScore (values point)) {this other : UTXODiff}
    {base first second : UTXOSet} (baseIn : ∀ point entry, base point = some entry →
    entry ∈ values point) (firstIn : ∀ point entry, first point = some entry → entry ∈ values point)
    (secondIn : ∀ point entry, second point = some entry → entry ∈ values point)
    (thisExact : ExactDiff this base first) (thisSep : this.Separated)
    (otherExact : ExactDiff other base second) (otherSep : other.Separated) : ∃ diff,
    diffFromPast this other = .ok diff ∧ ExactDiff diff first second ∧ diff.Separated := by
  have sameScore : SameScoreSameEntry [this, other] := by
    intro point
    refine (coherent point).mono ?_
    rintro entry ⟨diff, mem, added | gone⟩
    · rcases List.mem_cons.mp mem with rfl | mem
      · exact (thisExact.within (baseIn point) (firstIn point)).1 entry added
      · rw [List.mem_singleton.mp mem] at added
        exact (otherExact.within (baseIn point) (secondIn point)).1 entry added
    · rcases List.mem_cons.mp mem with rfl | mem
      · exact (thisExact.within (baseIn point) (firstIn point)).2 entry gone
      · rw [List.mem_singleton.mp mem] at gone
        exact (otherExact.within (baseIn point) (secondIn point)).2 entry gone
  rcases diffFromResult_of_valid sameScore thisSep otherSep
    thisExact.valid otherExact.valid with ⟨isOk, valid, leads, -⟩
  rw [thisExact.leads] at valid leads
  rw [otherExact.leads] at leads
  refine ⟨diffFromResult this other, ?_, ⟨valid, leads⟩, diffFromResult_sep thisSep otherSep⟩
  rw [diffFromPast, isOk]

/-! ## Making the tip the root -/

variable {tip : DomainHash}

/-- Staging exact diffs for the tip and the old root moves the root. -/
theorem stageTipAndRoot_forest (forest : ExactForest store virtualSet past root)
    (tipIn : store.Stored tip) (ne : root ≠ tip) {rootDiff tipDiff : UTXODiff}
    (rootExact : ExactDiff rootDiff (past tip) (past root))
    (tipExact : ExactDiff tipDiff virtualSet (past tip)) : ExactForest
      ((store.stage root rootDiff (some tip)).stage tip tipDiff none) virtualSet past tip := by
  have storedRoot : store.Stored root := (forest.routed tip tipIn).root_good
  have sameDag : ((store.stage root rootDiff (some tip)).stage tip
        tipDiff none).Stored = store.Stored := by
    rw [stage_of_stored (stored_stage.mpr (Or.inr tipIn)), stage_of_stored storedRoot]
  constructor
  · intro block diff lookup
    rw [lookup_stage, lookup_stage] at lookup
    rw [child_stage, child_stage]
    split_ifs at lookup ⊢ with isTip isRoot
    · cases lookup
      rw [isTip]
      exact tipExact
    · cases lookup
      rw [isRoot]
      exact rootExact
    · exact forest.exactDiff block diff lookup
  · intro block stored
    rw [sameDag] at stored ⊢
    refine (forest.routed block stored).reroot tipIn ?_ ?_ ?_
    · rw [child_stage, if_pos rfl]
    · intro _
      rw [child_stage, if_neg ne, child_stage, if_pos rfl]
    · intro _ notTip notRoot
      rw [child_stage, if_neg notTip, child_stage, if_neg notRoot]
  · rw [sameDag]
    exact forest.notVirtual
  · rw [sameDag]
    exact forest.notVirtualGenesis

/-- The diff the store holds for a block is separated. -/
def SeparatedAt (store : UTXODiffStore) (block : DomainHash) : Prop :=
  ∀ diff, store.diffs.lookup block = some diff → diff.Separated

/-- The selected tip becomes the root of the same blocks and pasts. -/
theorem stageSelectedTip_forest (genesisHash : DomainHash)
    (forest : ExactForest store virtualSet past root) (coherent : Coherent store virtualSet past)
    (sep : SeparatedAt store root) (tipIn : store.Stored tip) : ∃ staged enough,
    (∀ rounds, enough ≤ rounds → stageSelectedTipDiffRelativeToVirtual genesisHash store rounds
    tip = some (.ok staged)) ∧ staged.Stored = store.Stored ∧
    ExactForest staged virtualSet past tip ∧ SeparatedAt staged tip := by
  have tipRoute := forest.routed tip tipIn
  have storedRoot : store.Stored root := tipRoute.root_good
  cases points : store.utxoDiffChild tip with
  | none =>
    have isRoot : root = tip := tipRoute.root_unique (.root tipIn points)
    refine ⟨store, 0, fun rounds _ => ?_, rfl, ?_, ?_⟩
    · rw [stageSelectedTipDiffRelativeToVirtual, points]
    · rw [← isRoot]
      exact forest
    · rw [← isRoot]
      exact sep
  | some first =>
    have ne : root ≠ tip := by
      rintro rfl
      rw [tipRoute.last] at points
      cases points
    have firstRoute : Route store.utxoDiffChild store.Stored first root := by
      cases tipRoute with
      | root _ last =>
        rw [last] at points
        cases points
      | step _ otherPoints rest =>
        rw [points] at otherPoints
        cases otherPoints
        exact rest
    have leadHere : ∀ prior ∈ [tip], TransGen (fun first second =>
          store.utxoDiffChild first = some second) prior first := by
      intro prior mem
      rw [List.mem_singleton.mp mem]
      exact .single points
    rcases findDiffRoot_of_route firstRoute leadHere with ⟨enoughRoot, findsRoot⟩
    rcases stored_lookup storedRoot with ⟨_, -, readRoot⟩
    rcases forest.restores genesisHash coherent tipIn with
      ⟨tipPast, enoughTip, restoresTip, tipExact, tipSeparated⟩
    rcases forest.restores genesisHash coherent storedRoot with
      ⟨_, enoughPast, restoresRoot, rootExact, rootSeparated⟩
    rcases diffFromPast_exact coherent (fun point entry held => .inl held)
      (fun point entry held => .inr ⟨tip, tipIn, held⟩)
      (fun point entry held => .inr ⟨root, storedRoot, held⟩)
      tipExact tipSeparated rootExact rootSeparated with ⟨rootDiff, isOk, rootDiffExact, -⟩
    refine ⟨(store.stage root rootDiff (some tip)).stage tip tipPast none,
      enoughRoot + enoughTip + enoughPast, fun rounds _ => ?_, ?_,
      stageTipAndRoot_forest forest tipIn ne rootDiffExact tipExact, ?_⟩
    · rw [stageSelectedTipDiffRelativeToVirtual, points]
      dsimp only
      rw [findsRoot rounds (by omega)]
      dsimp only [afterWalk]
      rw [readRoot]
      rw [restoresTip rounds (by omega)]
      rw [restoresRoot rounds (by omega)]
      dsimp only
      rw [stageTipAndRoot, isOk]
    · rw [stage_of_stored (stored_stage.mpr (Or.inr tipIn)), stage_of_stored storedRoot]
    · intro _ lookup
      rw [lookup_stage, if_pos rfl] at lookup
      cases lookup
      exact tipSeparated

/-! ## Following virtual -/

/-- The entries held before or after virtual moves. -/
def heldAround (store : UTXODiffStore) (virtualSet : UTXOSet) (past : DomainHash → UTXOSet)
    (virtualDiff : UTXODiff) (outpoint : DomainOutpoint) : Set UTXOEntry :=
  { entry | entry ∈ heldAt store virtualSet past outpoint ∨
    virtualDiff.view virtualSet outpoint = some entry }

/-- Rewriting the root's diff moves the forest to another virtual set. -/
theorem stageRoot_forest (forest : ExactForest store virtualSet past root)
    (storedRoot : store.Stored root) {nextSet : UTXOSet}
    {newDiff : UTXODiff} (newExact : ExactDiff newDiff nextSet (past root)) :
    ExactForest (store.stage root newDiff none) nextSet past root := by
  have sameDag := stage_of_stored storedRoot newDiff none
  have samePointers : (store.stage root newDiff none).utxoDiffChild = store.utxoDiffChild := by
    funext block
    rw [child_stage]
    split_ifs with isRoot
    · rw [isRoot, (forest.routed root storedRoot).last]
    · rfl
  constructor
  · intro block diff lookup
    rw [lookup_stage] at lookup
    rw [samePointers]
    split_ifs at lookup with isRoot
    · cases lookup
      rw [isRoot, (forest.routed root storedRoot).last]
      exact newExact
    have stored : store.Stored block := by
      rw [UTXODiffStore.Stored, lookup]
      rfl
    have oldExact := forest.exactDiff block diff lookup
    cases points : store.utxoDiffChild block with
    | none =>
      exact absurd ((Route.root stored points).root_unique (forest.routed block stored)) isRoot
    | some child =>
      rw [points] at oldExact
      exact oldExact
  · intro block stored
    rw [sameDag] at stored ⊢
    rw [samePointers]
    exact forest.routed block stored
  · rw [sameDag]
    exact forest.notVirtual
  · rw [sameDag]
    exact forest.notVirtualGenesis

/-- The new diff of the selected tip keeps the forest exact over the new set. -/
theorem updateSelectedTip_forest (forest : ExactForest store virtualSet past tip)
    (tipIn : store.Stored tip) (sep : SeparatedAt store tip) {virtualDiff : UTXODiff}
    (valid : virtualDiff.ValidOn virtualSet) (virtualSeparated : virtualDiff.Separated)
    (coherent : ∀ point, Set.InjOn UTXOEntry.blockDAAScore
    (heldAround store virtualSet past virtualDiff point)) : ∃ updated,
    updateSelectedTipUTXODiff store tip virtualDiff = .ok updated ∧ updated.Stored = store.Stored ∧
    ExactForest updated (virtualDiff.view virtualSet) past tip ∧ SeparatedAt updated tip := by
  rcases stored_lookup tipIn with ⟨tipDiff, lookup, read⟩
  have childless := (forest.routed tip tipIn).last
  have tipExact := forest.exactDiff tip tipDiff lookup
  rw [childless] at tipExact
  rcases diffFromPast_exact coherent (fun point entry held => .inl (.inl held))
    (fun point entry held => .inr held) (fun point entry held => Or.inl (.inr ⟨tip, tipIn, held⟩))
    ⟨valid, rfl⟩ virtualSeparated tipExact (sep tipDiff lookup) with
    ⟨newDiff, isOk, newExact, newSeparated⟩
  have sameDag := stage_of_stored tipIn newDiff none
  refine ⟨store.stage tip newDiff none, ?_, sameDag, ?_, ?_⟩
  · rw [updateSelectedTipUTXODiff, hasUTXODiffChild, childless, if_neg (by simp), read]
    dsimp only
    rw [isOk]
  · exact stageRoot_forest forest tipIn newExact
  · intro _ isDiff
    rw [lookup_stage, if_pos rfl] at isDiff
    cases isDiff
    exact newSeparated

/-! ## Both steps -/

/-- Virtual's diff when it accepts the coinbase coin once more. -/
def mintedAgain : UTXODiff := ⟨AList.singleton coinbaseOutpoint (coinbaseCoin 7), ∅⟩

/-- One block, the root, with an empty diff. -/
def singleTip : UTXODiffStore := UTXODiffStore.stage ⟨∅, ∅⟩ tipBlock .empty none

theorem stored_singleTip {block : DomainHash} : singleTip.Stored block ↔ block = tipBlock := by
  rw [singleTip, stored_stage]
  refine ⟨fun either => either.resolve_right ?_, .inl⟩
  nofun

theorem singleTip_forest (set : UTXOSet) : ExactForest singleTip set (fun _ => set) tipBlock where
  exactDiff block diff lookup := by
    rw [singleTip, lookup_stage] at lookup
    split_ifs at lookup ⊢
    · cases lookup
      exact exactDiff_empty set
    · cases lookup
  routed block stored := by
    rw [stored_singleTip.mp stored]
    exact .root rfl rfl
  notVirtual stored := absurd (stored_singleTip.mp stored) (by decide)
  notVirtualGenesis stored := absurd (stored_singleTip.mp stored) (by decide)

end Htnd.ConsensusState.SelectedTip
