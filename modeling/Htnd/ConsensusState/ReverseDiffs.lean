import Htnd.ConsensusState.DiffForest

/-!
# Reversing a resolved chain, commit by commit

`ReverseUTXODiffs` re-points the blocks of a resolved chain from their selected
parents to their successors, starting below the tip.  Each commit writes one
block.  The invariant of the loop has three parts: the forest is exact; the
block written last has a route that avoids everything the loop may still
write; and what the loop may still write is as it was.
-/

namespace Htnd.ConsensusState.ReverseDiffs

open Relation Lib.PointerForest Utxo.Entry Utxo.MutableDiff Utxo.UtxoSet
open UtxoDiffs DiffForest UTXODiffStore Option ReflTransGen

/-- The diff child of a block is its selected parent. -/
def ChildIsSelectedParent (ghostdagData : GhostdagData)
    (store : UTXODiffStore) (block parent : DomainHash) : Prop :=
  ghostdagData block = some (some parent) ∧ store.utxoDiffChild block = some parent

/--
The blocks `ReverseUTXODiffs` writes: the selected parent of the tip, and on
from there as long as the diff child is the selected parent.
-/
def Reversed (ghostdagData : GhostdagData) (store : UTXODiffStore)
    (selectedParent : DomainHash) : DomainHash → Prop :=
  ReflTransGen (ChildIsSelectedParent ghostdagData store) selectedParent

/-- The blocks the loop may still write after `block`. -/
def ReversedAfter (ghostdagData : GhostdagData) (store : UTXODiffStore)
    (block : DomainHash) : DomainHash → Prop :=
  TransGen (ChildIsSelectedParent ghostdagData store) block

variable {block : DomainHash}

section

variable {ghostdagData : GhostdagData} {store : UTXODiffStore}
  {virtualSet : UTXOSet} {past : DomainHash → UTXOSet} {root : DomainHash}

variable {diff : UTXODiff}

/-- Writing a stored block with an exact diff to a target that avoids it. -/
theorem stage_forest (forest : ExactForest store virtualSet past root) {target : DomainHash}
    (stored : store.Stored block) (exactly : ExactDiff diff (past target) (past block))
    (route : Route store.utxoDiffChild (fun node => store.Stored node ∧ node ≠ block) target root) :
    ExactForest (store.stage block diff (some target)) virtualSet past
      root := by
  have sameDag := stage_of_stored stored diff (some target)
  constructor
  · intro other otherDiff lookup
    rw [lookup_stage] at lookup
    rw [child_stage]
    split_ifs at lookup ⊢ with same
    · cases lookup
      rw [same]
      exact exactly
    · exact forest.exactDiff other otherDiff lookup
  · intro other isStored
    rw [sameDag] at isStored ⊢
    refine (forest.routed other isStored).repoint stored route ?_ ?_
    · rw [child_stage, if_pos rfl]
    · intro node ne
      rw [child_stage, if_neg ne]
  · rw [sameDag]
    exact forest.notVirtual
  · rw [sameDag]
    exact forest.notVirtualGenesis

/-- The invariant of the loop, relative to the store before the call. -/
structure LoopInvariant (ghostdagData : GhostdagData) (store : UTXODiffStore) (virtualSet : UTXOSet)
    (past : DomainHash → UTXOSet) (root : DomainHash) (state : Reversal) : Prop where
  forest : ExactForest state.store virtualSet past root
  sameBlocks : state.store.Stored = store.Stored
  next : ∃ current, ChildIsSelectedParent ghostdagData store state.previousBlock current ∧
    ExactDiff state.previousUTXODiff (past current) (past state.previousBlock)
  route : Route state.store.utxoDiffChild (fun node => store.Stored node ∧
    ¬ ReversedAfter ghostdagData store state.previousBlock node) state.previousBlock root
  untouched : ∀ node, ReversedAfter ghostdagData store state.previousBlock node →
    state.store.diffs.lookup node = store.diffs.lookup node ∧ state.store.utxoDiffChild node =
    store.utxoDiffChild node

/-- No block the loop may still write is the block written last. -/
theorem not_reversedAfter_self (forest : ExactForest store virtualSet past root)
    (stored : store.Stored block) : ¬ ReversedAfter ghostdagData store block block := by
  intro cycle
  have pointers : ChildIsSelectedParent ghostdagData store ≤
      fun first second => store.utxoDiffChild first = some second := fun _ _ both => both.2
  exact (forest.routed block stored).acyclic (.mono pointers block block cycle)

/-- Diff children of stored blocks are stored. -/
theorem stored_of_child (forest : ExactForest store virtualSet past root)
    {child : DomainHash} (stored : store.Stored block)
    (points : store.utxoDiffChild block = some child) : store.Stored child := by
  cases forest.routed block stored with
  | root _ last =>
    rw [last] at points
    cases points
  | step _ otherPoints rest =>
    rw [points] at otherPoints
    cases otherPoints
    exact rest.good

variable {state : Reversal}

section

variable (before : ExactForest store virtualSet past root)

include before

/-- What one round does, in a state that meets the invariant. -/
theorem reverseRound_cases (inv : LoopInvariant ghostdagData store virtualSet past root state) :
    ∃ here diff, ChildIsSelectedParent ghostdagData store state.previousBlock here ∧
    store.Stored here ∧ ExactDiff state.previousUTXODiff (past here) (past state.previousBlock) ∧
    store.diffs.lookup here = some diff ∧ ((∃ err, reverseRound ghostdagData state = .error err) ∨
    ∃ stop, reverseRound ghostdagData state =
    .ok (⟨state.store.stage here state.previousUTXODiff.reversed state.previousBlock, here, diff⟩,
    stop) ∧ (stop = false → ∃ parent, ChildIsSelectedParent ghostdagData store here parent)) := by
  rcases inv.next with ⟨here, isNext, exactly⟩
  have later := TransGen.single isNext
  have storedCurrent : store.Stored here := stored_of_child before inv.route.good.1 isNext.2
  rcases stored_lookup storedCurrent with ⟨diff, lookup, -⟩
  have same := inv.untouched here later
  refine ⟨here, diff, isNext, storedCurrent, exactly, lookup, ?_⟩
  have read : state.store.utxoDiff here = some diff := by rw [utxoDiff, same.1, lookup, some_or]
  rw [reverseRound, isNext.1]
  dsimp only
  cases data : ghostdagData here with
  | none => exact .inl ⟨_, rfl⟩
  | some currentSelectedParent =>
    right
    rw [read]
    refine ⟨_, rfl, ?_⟩
    intro goesOn
    simp only [Bool.or_eq_false_iff, decide_eq_false_iff_not, ne_eq, not_not] at goesOn
    rcases ne_none_iff_exists'.mp goesOn.1 with ⟨parent, isChild⟩
    refine ⟨parent, ?_, ?_⟩
    · rw [data, goesOn.2, isChild]
    · rw [← same.2, isChild]

/-- A round keeps the forest exact, and the invariant if the loop goes on. -/
theorem reverseRound_invariant {state next : Reversal} {stop : Bool}
    (inv : LoopInvariant ghostdagData store virtualSet past root state)
    (round : reverseRound ghostdagData state = .ok (next, stop)) :
    ExactForest next.store virtualSet past root ∧
      next.store.Stored = store.Stored ∧ (stop = false →
        LoopInvariant ghostdagData store virtualSet past root next) := by
  rcases reverseRound_cases before inv with ⟨here, diff, isNext, storedCurrent, exactly, lookup,
    ⟨_, isError⟩ | ⟨_, isOk, goesOn⟩⟩
  · rw [isError] at round
    cases round
  rw [isOk] at round
  cases round
  have later := TransGen.single isNext
  have storedNow : state.store.Stored here := by
    rw [inv.sameBlocks]
    exact storedCurrent
  have avoiding : Route state.store.utxoDiffChild
      (fun node => state.store.Stored node ∧ node ≠ here) state.previousBlock root := by
    refine inv.route.transfer ?_ fun _ _ => rfl
    rintro node ⟨stored, notLater⟩
    refine ⟨by rw [inv.sameBlocks]; exact stored, ?_⟩
    rintro rfl
    exact notLater later
  have forest := stage_forest inv.forest storedNow exactly.reversed avoiding
  have sameDag := (stage_of_stored storedNow
    state.previousUTXODiff.reversed (some state.previousBlock)).trans inv.sameBlocks
  refine ⟨forest, sameDag, fun isFalse => ?_⟩
  rcases goesOn isFalse with ⟨parent, link⟩
  have notAfterSelf : ¬ ReversedAfter ghostdagData store here here :=
    not_reversedAfter_self before storedCurrent
  refine ⟨forest, sameDag, ⟨parent, link, ?_⟩, ?_, ?_⟩
  · have oldExact := before.exactDiff here diff lookup
    rw [link.2] at oldExact
    exact oldExact
  · refine .step ⟨storedCurrent, notAfterSelf⟩ ?_ (inv.route.transfer ?_ ?_)
    · rw [child_stage, if_pos rfl]
    · rintro node ⟨stored, notLater⟩
      exact ⟨stored, fun afterCurrent => notLater (.head isNext afterCurrent)⟩
    · rintro node ⟨-, notLater⟩
      rw [child_stage, if_neg]
      rintro rfl
      exact notLater later
  · intro node afterCurrent
    have ne : node ≠ here := by
      rintro rfl
      exact notAfterSelf afterCurrent
    have same := inv.untouched node (.head isNext afterCurrent)
    rw [lookup_stage, if_neg ne, child_stage, if_neg ne]
    exact same

/-- The loop keeps the forest exact, wherever it is interrupted. -/
theorem reverseLoop_forest (kept : Nat) (inv : LoopInvariant ghostdagData store virtualSet past root
    state) : ExactForest (reverseLoop ghostdagData kept state).1 virtualSet past root ∧
    (reverseLoop ghostdagData kept state).1.Stored = store.Stored := by
  induction kept generalizing state with
  | zero => exact ⟨inv.forest, inv.sameBlocks⟩
  | succ kept ih =>
    rw [reverseLoop]
    cases round : reverseRound ghostdagData state with
    | error err => exact ⟨inv.forest, inv.sameBlocks⟩
    | ok outcome =>
      rcases outcome with ⟨_, stop⟩
      rcases reverseRound_invariant before inv round with ⟨forest, sameDag, goesOn⟩
      cases stop with
      | true => exact ⟨forest, sameDag⟩
      | false => exact ih (goesOn rfl)

/-- The loop ends: it follows the route of the block written last. -/
theorem reverseLoop_ends (inv : LoopInvariant ghostdagData store virtualSet past root state) :
    ∃ enough, ∀ kept, enough ≤ kept → (reverseLoop ghostdagData kept state).2 ≠ .interrupted := by
  have oldRoute := before.routed state.previousBlock inv.route.good.1
  generalize isPrevious : state.previousBlock = block at oldRoute
  induction oldRoute generalizing state with
  | root good last =>
    rcases inv.next with ⟨here, isNext, -⟩
    rw [isPrevious] at isNext
    rw [isNext.2] at last
    cases last
  | step good points rest ih =>
    have oneRound : ∀ kept, 1 ≤ kept → ∃ fewer, kept = fewer + 1 :=
      fun kept pos => ⟨kept - 1, by omega⟩
    rcases reverseRound_cases before inv with
      ⟨here, _, isNext, -, -, -, ⟨_, isError⟩ | ⟨stop, isOk, _⟩⟩
    · refine ⟨1, fun kept pos => ?_⟩
      rcases oneRound kept pos with ⟨fewer, rfl⟩
      rw [reverseLoop, isError]
      exact ReversalOutcome.noConfusion
    cases stop with
    | true =>
      refine ⟨1, fun kept pos => ?_⟩
      rcases oneRound kept pos with ⟨fewer, rfl⟩
      rw [reverseLoop, isOk]
      exact ReversalOutcome.noConfusion
    | false =>
      have nextInvariant := (reverseRound_invariant before inv isOk).2.2 rfl
      rw [isPrevious] at isNext
      rw [isNext.2] at points
      cases points
      rcases ih before nextInvariant rfl with ⟨enough, ends⟩
      refine ⟨enough + 1, fun kept _ => ?_⟩
      rcases oneRound kept (by omega) with ⟨fewer, rfl⟩
      rw [reverseLoop, isOk]
      exact ends fewer (by omega)

/-- The state after the first commit meets the invariant. -/
theorem firstCommit_invariant {tipHash chosen : DomainHash} {spDiff : UTXODiff}
    (exactly : ExactDiff spDiff (past tipHash) (past chosen)) (stored : store.Stored chosen)
    (isDiff : store.diffs.lookup chosen = some diff)
    (childIsParent : ∃ parent, ChildIsSelectedParent ghostdagData store chosen parent)
    (tipRoute : Route store.utxoDiffChild (fun node => store.Stored node ∧
    ¬ Reversed ghostdagData store chosen node) tipHash root) :
    LoopInvariant ghostdagData store virtualSet past root ⟨store.stage chosen spDiff (some tipHash),
    chosen, diff⟩ := by
  rcases childIsParent with ⟨parent, link⟩
  have notAfterSelf : ¬ ReversedAfter ghostdagData store chosen chosen :=
    not_reversedAfter_self before stored
  refine ⟨?_, ?_, ⟨parent, link, ?_⟩, ?_, ?_⟩
  · refine stage_forest before stored exactly (tipRoute.transfer ?_ fun _ _ => rfl)
    rintro node ⟨isStored, notReversed⟩
    refine ⟨isStored, ?_⟩
    rintro rfl
    exact notReversed refl
  · exact stage_of_stored stored spDiff (some tipHash)
  · have oldExact := before.exactDiff chosen diff isDiff
    rw [link.2] at oldExact
    exact oldExact
  · refine .step ⟨stored, notAfterSelf⟩ ?_ (tipRoute.transfer ?_ ?_)
    · rw [child_stage, if_pos rfl]
    · rintro node ⟨isStored, notReversed⟩
      exact ⟨isStored, fun later => notReversed later.to_reflTransGen⟩
    · rintro node ⟨-, notReversed⟩
      rw [child_stage, if_neg]
      rintro rfl
      exact notReversed refl
  · intro node later
    have ne : node ≠ chosen := by
      rintro rfl
      exact notAfterSelf later
    rw [lookup_stage, if_neg ne, child_stage, if_neg ne]
    exact ⟨rfl, rfl⟩

end

end

/-! ## Every crash point -/

/--
What a call of `ReverseUTXODiffs` is given: the tip and its selected parent are
stored, the reversal data leads from the tip's past to the selected parent's,
the selected parent's diff child is its own selected parent, and the route of
the tip to the root meets no block that the call writes.
-/
structure ReversalCall (ghostdagData : GhostdagData)
    (store : UTXODiffStore) (past : DomainHash → UTXOSet)
    (root tipHash : DomainHash) (reversalData : UTXODiffReversalData) : Prop where
  stored : store.Stored reversalData.selectedParentHash
  exactDiff : ExactDiff reversalData.selectedParentUTXODiff (past tipHash)
    (past reversalData.selectedParentHash)
  childIsParent : ∃ parent, ChildIsSelectedParent ghostdagData store
    reversalData.selectedParentHash parent
  tipRoute : Route store.utxoDiffChild (fun node => store.Stored node ∧
    ¬ Reversed ghostdagData store reversalData.selectedParentHash node) tipHash root

/--
After every number of commits the forest has the same blocks, every block's
diff children still lead to the same root, and every block restores the past
it restored before; and the call comes to an end.
-/
theorem reverseUTXODiffs_crash_safe (genesisHash : DomainHash)
    (ghostdagData : GhostdagData) (store : UTXODiffStore)
    (virtualSet : UTXOSet) (past : DomainHash → UTXOSet)
    (root tipHash : DomainHash) (reversalData : UTXODiffReversalData)
    (forest : ExactForest store virtualSet past root) (coherent : Coherent store virtualSet past)
    (call : ReversalCall ghostdagData store past root tipHash reversalData) :
    (∀ commits block, store.Stored block →
      let after := (reverseUTXODiffs ghostdagData store tipHash reversalData commits).1
      Route after.utxoDiffChild after.Stored block root ∧
        Restores genesisHash after virtualSet past block) ∧
    ∃ enough, ∀ commits, enough ≤ commits →
      (reverseUTXODiffs ghostdagData store tipHash reversalData commits).2 ≠ .interrupted := by
  rcases stored_lookup call.stored with ⟨diff, lookup, read⟩
  have invariant := firstCommit_invariant forest call.exactDiff call.stored
    lookup call.childIsParent call.tipRoute
  have runs : ∀ commits, reverseUTXODiffs ghostdagData store tipHash reversalData (commits + 1) =
      reverseLoop ghostdagData commits ⟨store.stage reversalData.selectedParentHash
      reversalData.selectedParentUTXODiff (some tipHash), reversalData.selectedParentHash,
      diff⟩ := by
    intro commits
    rw [reverseUTXODiffs, read]
  constructor
  · intro commits block stored
    have exactAfter : ExactForest (reverseUTXODiffs ghostdagData store tipHash reversalData
          commits).1 virtualSet past root ∧ (reverseUTXODiffs ghostdagData store tipHash
          reversalData commits).1.Stored = store.Stored := by
      cases commits with
      | zero => exact ⟨forest, rfl⟩
      | succ commits =>
        rw [runs]
        exact reverseLoop_forest forest commits invariant
    have storedAfter : (reverseUTXODiffs ghostdagData store tipHash
        reversalData commits).1.Stored block := by
      rw [exactAfter.2]
      exact stored
    exact ⟨exactAfter.1.routed block storedAfter,
      exactAfter.1.restores genesisHash (coherent_of_eq exactAfter.2 coherent) storedAfter⟩
  · rcases reverseLoop_ends forest invariant with ⟨enough, ends⟩
    refine ⟨enough + 1, fun commits more => ?_⟩
    cases commits with
    | zero => exact absurd more (Nat.not_succ_le_zero enough)
    | succ commits =>
      rw [runs]
      exact ends commits (Nat.le_of_succ_le_succ more)

/-! ## Three blocks -/

/-- A fork point, a block above it, and the tip above that. -/
def forkBlock : DomainHash := .filled 1

def middleBlock : DomainHash := .filled 2

def tipBlock : DomainHash := .filled 3

/-- The selected parents of the three blocks. -/
def threeBlocksGhostdag : GhostdagData :=
  fun block =>
    if block = tipBlock then some (some middleBlock)
    else if block = middleBlock then some (some forkBlock)
    else if block = forkBlock then some none
    else none

/-- The three blocks with the given diffs and diff children. -/
def threeBlocks (forkDiff middleDiff tipDiff : UTXODiff)
    (forkChild tipChild : Option DomainHash) : UTXODiffStore :=
  ((UTXODiffStore.stage ⟨∅, ∅⟩ forkBlock forkDiff forkChild).stage
    middleBlock middleDiff (some forkBlock)).stage tipBlock tipDiff tipChild

variable {forkDiff middleDiff tipDiff : UTXODiff} {forkChild tipChild : Option DomainHash}

theorem stored_threeBlocks : (threeBlocks forkDiff middleDiff tipDiff forkChild tipChild).Stored
    block ↔ block = tipBlock ∨ block = middleBlock ∨ block = forkBlock := by
  rw [threeBlocks, stored_stage, stored_stage, stored_stage]
  have nothing : ¬ (⟨∅, ∅⟩ : UTXODiffStore).Stored block := by nofun
  tauto

theorem threeBlocks_forest {virtualSet : UTXOSet} {past : DomainHash → UTXOSet}
    {root : DomainHash} (forkExact : ExactDiff forkDiff (baseOf virtualSet past forkChild)
    (past forkBlock)) (middleExact : ExactDiff middleDiff (past forkBlock) (past middleBlock))
    (tipExact : ExactDiff tipDiff (baseOf virtualSet past tipChild) (past tipBlock))
    (routed : ∀ block, block = tipBlock ∨ block = middleBlock ∨ block = forkBlock →
      let store := threeBlocks forkDiff middleDiff tipDiff forkChild tipChild
      Route store.utxoDiffChild store.Stored block root) :
    ExactForest (threeBlocks forkDiff middleDiff tipDiff forkChild tipChild)
      virtualSet past root where
  exactDiff block diff lookup := by
    rw [threeBlocks, lookup_stage, lookup_stage, lookup_stage] at lookup
    rw [threeBlocks, child_stage, child_stage, child_stage]
    split_ifs at lookup ⊢ with isTip isMiddle isFork
    · cases lookup
      rw [isTip]
      exact tipExact
    · cases lookup
      rw [isMiddle]
      exact middleExact
    · cases lookup
      rw [isFork]
      exact forkExact
    · cases lookup
  routed block stored := routed block (stored_threeBlocks.mp stored)
  notVirtual stored := by
    have isOne := stored_threeBlocks.mp stored
    revert isOne
    decide
  notVirtualGenesis stored := by
    have isOne := stored_threeBlocks.mp stored
    revert isOne
    decide

theorem exactDiff_empty (set : UTXOSet) : ExactDiff .empty set set :=
  ⟨UTXODiff.validOn_empty set, UTXODiff.view_empty set⟩

/-- All three blocks have empty diffs, and the fork point is the root. -/
def forkRooted : UTXODiffStore := threeBlocks .empty .empty .empty none (some forkBlock)

theorem forkRooted_forest : ExactForest forkRooted (fun _ => none) (fun _ _ => none) forkBlock := by
  have forkRoute : Route forkRooted.utxoDiffChild forkRooted.Stored
      forkBlock forkBlock := .root rfl rfl
  refine threeBlocks_forest (exactDiff_empty _) (exactDiff_empty _) (exactDiff_empty _) ?_
  rintro _ (rfl | rfl | rfl)
  · exact .step rfl rfl forkRoute
  · exact .step rfl rfl forkRoute
  · exact forkRoute

theorem forkRooted_coherent : Coherent forkRooted (fun _ => none) (fun _ _ => none) := by
  rintro _ entry (held | ⟨_, _, held⟩)
  · cases (show none = some entry from held)
  · cases (show none = some entry from held)

/--
The tip's diff child is the fork point, which is the root.  Reversing points
the fork point at the middle block and that at the tip: the three form a cycle,
and no walk from any of them ends.
-/
theorem reverseUTXODiffs_closes_cycle :
    let after := (reverseUTXODiffs threeBlocksGhostdag forkRooted tipBlock
      ⟨middleBlock, .empty⟩ 2).1
    ExactForest forkRooted (fun _ => none) (fun _ _ => none) forkBlock ∧
      threeBlocksGhostdag tipBlock = some (some middleBlock) ∧
      ChildIsSelectedParent threeBlocksGhostdag forkRooted middleBlock forkBlock ∧
      (∀ block, forkRooted.Stored block → Restores forkBlock forkRooted (fun _ => none)
      (fun _ _ => none) block) ∧ ∀ rounds block, forkRooted.Stored block →
      restorePastUTXO forkBlock after rounds block = none := by
  intro after
  refine ⟨forkRooted_forest, rfl, ⟨rfl, rfl⟩, fun block stored =>
    forkRooted_forest.restores forkBlock forkRooted_coherent stored, ?_⟩
  have noEnd : ∀ rounds, collectDiffs after rounds tipBlock = none ∧
        collectDiffs after rounds middleBlock = none ∧
        collectDiffs after rounds forkBlock = none := by
    intro rounds
    induction rounds with
    | zero => exact ⟨rfl, rfl, rfl⟩
    | succ rounds ih =>
      have step : ∀ block child, after.utxoDiff block = some .empty →
          after.utxoDiffChild block = some child → collectDiffs after rounds child = none →
          collectDiffs after (rounds + 1) block = none := by
        intro block child read points stuck
        rw [collectDiffs, read]
        rw [points]
        dsimp only
        rw [stuck, map_none]
      exact ⟨step tipBlock forkBlock rfl rfl ih.2.2, step middleBlock tipBlock rfl rfl ih.1,
        step forkBlock middleBlock rfl rfl ih.2.1⟩
  intro rounds block stored
  rcases stored_threeBlocks.mp stored with rfl | rfl | rfl
  · rw [restorePastUTXO, if_neg (by decide), if_neg (by decide), (noEnd rounds).1, map_none]
  · rw [restorePastUTXO, if_neg (by decide), if_neg (by decide), (noEnd rounds).2.1, map_none]
  · rw [restorePastUTXO, if_neg (by decide), if_neg (by decide), (noEnd rounds).2.2, map_none]

/-- The coinbase coin has another score in the past of each block. -/
def restampedPast (block : DomainHash) : UTXOSet :=
  if block = tipBlock then coinbaseSet 9
  else if block = middleBlock then coinbaseSet 7
  else coinbaseSet 5

/-- The tip is the root, and the fork point, once the selected tip, leads to it. -/
def tipRooted : UTXODiffStore := threeBlocks (restamp 9 5) (restamp 5 7) .empty (some tipBlock) none

theorem exactDiff_restamp (old new : UInt64) :
    ExactDiff (restamp old new) (coinbaseSet old) (coinbaseSet new) :=
  ⟨restamp_validOn old new, view_restamp old new⟩

theorem tipRooted_forest : ExactForest tipRooted (coinbaseSet 9) restampedPast tipBlock := by
  have tipRoute : Route tipRooted.utxoDiffChild tipRooted.Stored tipBlock
      tipBlock := .root rfl rfl
  have forkRoute : Route tipRooted.utxoDiffChild tipRooted.Stored forkBlock
      tipBlock := .step rfl rfl tipRoute
  refine threeBlocks_forest (exactDiff_restamp 9 5) (exactDiff_restamp 5 7) (exactDiff_empty _) ?_
  rintro _ (rfl | rfl | rfl)
  · exact tipRoute
  · exact .step rfl rfl forkRoute
  · exact forkRoute

theorem tipRooted_coins {point : DomainOutpoint} {entry : UTXOEntry}
    (held : entry ∈ heldAt tipRooted (coinbaseSet 9) restampedPast point) :
    entry = coinbaseCoin entry.blockDAAScore := by
  rcases held with held | ⟨_, -, held⟩
  · exact eq_coinbaseCoin held
  rw [restampedPast] at held
  split_ifs at held
  · exact eq_coinbaseCoin held
  · exact eq_coinbaseCoin held
  · exact eq_coinbaseCoin held

theorem tipRooted_coherent : Coherent tipRooted (coinbaseSet 9) restampedPast :=
  fun _ => injOn_of_coins fun _ => tipRooted_coins

theorem tipRooted_call : ReversalCall threeBlocksGhostdag tipRooted restampedPast tipBlock tipBlock
    ⟨middleBlock, restamp 9 7⟩ where
  stored := rfl
  exactDiff := exactDiff_restamp 9 7
  childIsParent := ⟨forkBlock, rfl, rfl⟩
  tipRoute := by
    refine .root ⟨rfl, ?_⟩ rfl
    intro reversed
    rcases cases_head reversed with same | ⟨next, step, rest⟩
    · exact absurd same (by decide)
    · cases (show some (some forkBlock) = some (some next) from step.1)
      rcases cases_head rest with same | ⟨other, step, -⟩
      · exact absurd same (by decide)
      · cases (show some none = some (some other) from step.1)

/-- The two commits of that call re-point the middle block and the fork. -/
theorem reverseUTXODiffs_crash_safe_tipRooted :
    let after := fun commits => (reverseUTXODiffs threeBlocksGhostdag
      tipRooted tipBlock ⟨middleBlock, restamp 9 7⟩ commits).1
    (after 1).utxoDiffChild middleBlock = some tipBlock ∧
      (after 2).utxoDiffChild forkBlock = some middleBlock ∧
      ∀ commits, Restores forkBlock (after commits) (coinbaseSet 9) restampedPast forkBlock :=
  ⟨rfl, rfl, fun commits => ((reverseUTXODiffs_crash_safe forkBlock threeBlocksGhostdag tipRooted
    (coinbaseSet 9) restampedPast tipBlock tipBlock ⟨middleBlock, restamp 9 7⟩ tipRooted_forest
    tipRooted_coherent tipRooted_call).1 commits forkBlock rfl).2⟩

end Htnd.ConsensusState.ReverseDiffs
