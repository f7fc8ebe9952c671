import Htnd.Reachability.Concentrate

/-!
# Runs of the reachability manager

A run starts with `Init` on an empty store; blocks are added under blocks that
are in the tree, and the reindex root is moved towards selected tips in the
tree, every call returning without an error.  Each call gets a GHOSTDAG store
of its own.  As long as every move finds GHOSTDAG data for the reindex root it
starts from, every state of the run is well indexed.  A move without that data
sets the root to the selected tip and leaves the intervals as they are; then a
later call can leave a block without an interval.
-/

namespace Htnd.Reachability.Run

open Lib.Fallible Lib.RootedTree Lib.SpanTree Utxo.Entry
open Reachability.Interval Reachability.Tree Reindex Manager Shape Outcome
  Ancestors Subtrees
open Invariant NewChild Concentrate ReachabilityDataStore Function

def emptyStore : ReachabilityDataStore := ⟨∅, none⟩

/--
The blocks and the store after some successful calls; the moves of the reindex
root are those allowed.
-/
inductive Calls (manager : ReachabilityManager)
    (Allowed : GHOSTDAGDataStore → ReachabilityDataStore → DomainHash → Prop) :
    List DomainHash → ReachabilityDataStore → Prop where
  | init : Calls manager Allowed [virtualGenesisBlockHash] (init emptyStore)
  | addBlock {blocks : List DomainHash} {store store' : ReachabilityDataStore} (rounds : Nat)
      (ghostdagDataStore : GHOSTDAGDataStore) (blockHash : DomainHash)
      (earlier : Calls manager Allowed blocks store) (fresh : blockHash ∉ blocks)
      (parentIn : ∀ data parent, ghostdagDataStore blockHash = some data → data.selectedParent =
      some parent → parent ∈ blocks) (success : addBlock manager rounds ghostdagDataStore store
      blockHash = .ok store') : Calls manager Allowed (blockHash :: blocks) store'
  | updateReindexRoot {blocks : List DomainHash} {store store' : ReachabilityDataStore}
      (rounds : Nat) (ghostdagDataStore : GHOSTDAGDataStore) (selectedTip : DomainHash)
      (earlier : Calls manager Allowed blocks store) (tipIn : selectedTip ∈ blocks)
      (allowed : Allowed ghostdagDataStore store selectedTip)
      (success : updateReindexRoot manager rounds ghostdagDataStore store selectedTip =
      .ok store') : Calls manager Allowed blocks store'

/-- The move finds GHOSTDAG data for the reindex root it starts from. -/
def RootHasData (ghostdagDataStore : GHOSTDAGDataStore)
    (store : ReachabilityDataStore) (selectedTip : DomainHash) : Prop :=
  ∀ root, store.reachabilityReindexRoot = some root → root ≠ selectedTip →
    (ghostdagDataStore root).isSome

/-! ## Every state is indexed -/

/-- After `Init` nothing is linked yet. -/
theorem shape_init (node : DomainHash) : (shapeOf (init emptyStore)).children node = [] ∧
    (shapeOf (init emptyStore)).parent node = none ∧ (shapeOf (init emptyStore)).covering node =
    [] := by
  change (shapeOf (emptyStore.stageData _ _)).children node = [] ∧
    (shapeOf (emptyStore.stageData _ _)).parent node = none ∧
    (shapeOf (emptyStore.stageData _ _)).covering node = []
  rw [children_stage, parent_stage, covering_stage, update_apply, update_apply, update_apply]
  split_ifs
  · exact ⟨rfl, rfl, rfl⟩
  · exact ⟨rfl, rfl, rfl⟩

theorem indexedStore_init (slack : Nat) :
    IndexedStore slack [virtualGenesisBlockHash] (init emptyStore) := by
  have isLeaf : ∀ node, (shapeOf (init emptyStore)).children node = [] :=
    fun node => (shape_init node).1
  have noParent : ∀ node, (shapeOf (init emptyStore)).parent node = none :=
    fun node => (shape_init node).2.1
  have only : ∀ {node lower}, (shapeOf (init emptyStore)).Below node lower → node = lower := by
    intro node lower below
    rcases below.cases_child with same | ⟨child, mem, -⟩
    · exact same
    · rw [isLeaf] at mem
      cases mem
  have atGenesis : spanOf (init emptyStore) virtualGenesisBlockHash = ⟨1, 2 ^ 64 - 1⟩ := by rfl
  refine ⟨⟨?_, ?_, noParent _, ?_, ?_⟩, ?_, virtualGenesisBlockHash, rfl,
    (.head _), ⟨⟨atGenesis, ?_, nofun⟩, ?_⟩⟩
  · intro node child
    rw [isLeaf, noParent]
    exact ⟨nofun, nofun⟩
  · intro node
    rw [isLeaf]
    exact List.nodup_nil
  · intro node child mem
    rw [isLeaf] at mem
    cases mem
  · refine (Set.finite_singleton virtualGenesisBlockHash).subset ?_
    intro node below
    exact (only below).symm
  · intro _
    rw [List.mem_singleton]
    constructor
    · exact fun below => (only below).symm
    · rintro rfl
      exact .refl _
  · intro node below _
    rw [← only below]
    refine encloses_leaf (isLeaf _) ?_
    decide
  · intro node below onChain ne
    exact absurd (only onChain) ne

/-! ## Counting subtrees -/

/--
After any nodes of a tree were counted, counting one more ends, and every node
under it has its size: one more than the sizes of its children together, the
number of nodes under it.
-/
theorem countSubtrees_sizes {store : ReachabilityDataStore}
    {genesis root : DomainHash} {nodes : List DomainHash} {rounds : Nat}
    (holds : HoldsTree store genesis) (nodesIn : ∀ node ∈ nodes, (shapeOf store).Below genesis node)
    (rootIn : (shapeOf store).Below genesis root)
    (enough : size (shapeOf store).children genesis ≤ rounds) :
    ∃ rc rc', nodes.foldlM (countSubtrees rounds) (newReindexContext store) =
        .ok rc ∧ countSubtrees rounds rc root = .ok rc' ∧ ∀ node, (shapeOf store).Below root node →
        ∃ count, rc'.subTreeSizesCache.lookup node = some count ∧
          count.toNat = 1 + (((shapeOf store).children node).map fun child =>
            (cachedSize rc'.subTreeSizesCache child).toNat).sum ∧ count.toNat =
            {lower | (shapeOf store).Below node lower}.ncard := by
  have before : ∃ rc, nodes.foldlM (countSubtrees rounds) (newReindexContext store) = .ok rc ∧
      rc.store = store ∧ SizesCached (shapeOf store).children rc.subTreeSizesCache := by
    have start : SizesCached (shapeOf store).children
      (newReindexContext store).subTreeSizesCache := sizesCached_empty
    have isStore : (newReindexContext store).store = store := rfl
    generalize newReindexContext store = rc at start isStore
    induction nodes generalizing rc with
    | nil => exact ⟨rc, rfl, isStore, start⟩
    | cons node rest ih =>
      rcases countSubtrees_total holds enough isStore start
        (nodesIn node (.head _)) with ⟨next, counts, isNext, cached, -⟩
      rw [List.foldlM_cons, ok_bind counts]
      exact ih (fun other isOther => nodesIn other (.tail node isOther)) next cached isNext
  rcases before with ⟨rc, counts, isStore, cached⟩
  rcases countSubtrees_total holds enough isStore cached rootIn with
    ⟨rc', countsRoot, -, cached', isCached⟩
  refine ⟨rc, rc', counts, countsRoot, fun node below => ?_⟩
  have nodeCached : (rc'.subTreeSizesCache.lookup node).isSome := by
    induction below with
    | refl => exact isCached
    | tail _ isChild ih => exact cached'.closed _ ih _ isChild
  rcases Option.isSome_iff_exists.mp nodeCached with ⟨count, found⟩
  have isSize := cached'.size_eq node count found
  refine ⟨count, found, ?_, isSize⟩
  rw [isSize, holds.tree.size_eq, add_comm]
  congr 2
  exact List.map_congr_left fun child isChild =>
    (cached'.cachedSize_eq (cached'.closed node nodeCached child isChild)).symm

section Invariant

variable {manager : ReachabilityManager} {blocks : List DomainHash}
  {store : ReachabilityDataStore} {slack : Nat}

theorem store_of_calls (isSlack : manager.reindexSlack.toNat = slack)
    (calls : Calls manager RootHasData blocks store)
    (ample : Ample slack blocks.length) : IndexedStore slack blocks store := by
  induction calls with
  | init => exact indexedStore_init slack
  | addBlock rounds ghostdag block prior fresh parentIn isOk ih =>
    have sound := ih (ample.mono (Nat.le_succ _))
    rcases (addBlock_meets sound ample isSlack fresh parentIn).of_ok isOk
      with ⟨_, _, _, _, blockAdded⟩
    exact blockAdded.sound.sameTree ((insertCoverings_ok blockAdded.insertsBlues).trans
      (insertCoverings_ok blockAdded.insertsReds))
  | updateReindexRoot rounds ghostdag tip prior tipIn hasData isOk ih =>
    exact (updateReindexRoot_ok (ih ample) ample isSlack tipIn hasData isOk).1

end Invariant

/-! ## Well indexed stores -/

def Follows (store : ReachabilityDataStore) (block ancestor : DomainHash) :
    Prop :=
  Relation.ReflTransGen (fun child parent => store.parent child = .ok (some parent)) block ancestor

/--
Intervals are non-empty, children lie within their parent and leave its last
number free, siblings are disjoint and increase, and the interval test answers
for parent links.
-/
structure WellIndexed (blocks : List DomainHash) (store : ReachabilityDataStore) : Prop where
  nonempty : ∀ block ∈ blocks, ∃ interval,
    store.interval block = .ok interval ∧ interval.start ≤ interval.end_
  within : ∀ block ∈ blocks, ∃ interval children, store.interval block = .ok interval ∧
    store.children block = .ok children ∧ ∀ child ∈ children, ∃ childInterval,
    store.interval child = .ok childInterval ∧ interval.start ≤ childInterval.start ∧
    childInterval.end_ ≤ interval.end_ - 1
  increasing : ∀ block ∈ blocks, ∃ children, store.children block = .ok children ∧
    children.Pairwise fun first second => ∃ firstInterval secondInterval, store.interval first =
    .ok firstInterval ∧ store.interval second = .ok secondInterval ∧
    firstInterval.end_ < secondInterval.start
  ancestry : ∀ ancestor ∈ blocks, ∀ block ∈ blocks, ∃ answer,
    store.isReachabilityTreeAncestorOf ancestor block = .ok answer ∧
    (answer = true ↔ Follows store block ancestor)

section WellIndexed

variable {blocks : List DomainHash} {store : ReachabilityDataStore} {slack : Nat}

/-- A node with a span has data to read. -/
theorem reads_of_positive {node : DomainHash} (pos : 1 ≤ (spanOf store node).lo) :
    store.children node = .ok ((shapeOf store).children node) ∧
    store.parent node = .ok ((shapeOf store).parent node) ∧ store.futureCoveringSet node =
    .ok ((shapeOf store).covering node) := by
  refine reads_of_stored ?_
  change 1 ≤ (intervalSpan ((store.data.lookup node).getD emptyReachabilityData).interval).lo at pos
  cases lookup : store.data.lookup node with
  | none =>
    rw [lookup] at pos
    exact absurd pos (Nat.not_succ_le_zero 0)
  | some data => rfl

theorem follows_iff_below (sound : IndexedStore slack blocks store)
    (pos : ∀ block ∈ blocks, 1 ≤ (spanOf store block).lo) {block upper : DomainHash}
    (inDag : block ∈ blocks) : Follows store block upper ↔ (shapeOf store).Below upper block := by
  constructor
  · intro follows
    induction follows with
    | refl => exact .refl block
    | @tail middle upper _ link ih =>
      have isParent := parent_ok rfl link
      exact (Below.of_child (sound.tree.mem_children.mpr isParent)).trans ih
  · intro below
    induction below with
    | refl => exact Relation.ReflTransGen.refl
    | @tail middle block path mem ih =>
      have inTree := sound.tree.rooted mem
      refine Relation.ReflTransGen.head ?_ (ih ((sound.nodes middle).mp inTree))
      rw [(reads_of_positive (pos block inDag)).2.1, sound.tree.mem_children.mp mem]

theorem wellIndexed_of_indexedStore (sound : IndexedStore slack blocks store) :
    WellIndexed blocks store := by
  rcases sound.indexed with ⟨_, -, -, index⟩
  have bounds : ∀ block ∈ blocks, 1 ≤ (spanOf store block).lo ∧
      (spanOf store block).lo < (spanOf store block).hi := by
    intro block inDag
    have inTree := (sound.nodes block).mpr inDag
    exact ⟨(index.bounds inTree).1, (index.encloses block inTree not_false).nonempty⟩
  have childIn : ∀ block child, child ∈ (shapeOf store).children block → child ∈ blocks := by
    intro block child mem
    exact (sound.nodes child).mp ((sound.tree.rooted mem).trans (.of_child mem))
  refine ⟨?_, ?_, ?_, ?_⟩
  · intro block inDag
    rcases interval_pos (bounds block inDag).1 with ⟨interval, read⟩
    refine ⟨interval, read, ?_⟩
    have nonempty := (bounds block inDag).2
    rw [← interval_ok read] at nonempty
    exact Nat.le_of_lt_succ nonempty
  · intro block inDag
    have encloses := index.encloses block ((sound.nodes block).mpr inDag) not_false
    rcases interval_pos (bounds block inDag).1 with ⟨interval, read⟩
    refine ⟨interval, _, read, (reads_of_positive (bounds block inDag).1).1, fun child mem => ?_⟩
    rcases interval_pos (bounds child (childIn block child mem)).1 with ⟨childInterval, childRead⟩
    have within := encloses.child_within mem
    rw [← interval_ok read, ← interval_ok childRead] at within
    refine ⟨childInterval, childRead, ?_, ?_⟩
    · exact within.1
    · have below : childInterval.end_.toNat + 1 < interval.end_.toNat + 1 := within.2
      rw [UInt64.le_iff_toNat_le, toNat_sub_of_le
        (by rw [UInt64.toNat_one]; omega), UInt64.toNat_one]
      omega
  · intro block inDag
    refine ⟨_, (reads_of_positive (bounds block inDag).1).1, ?_⟩
    rcases index.encloses block ((sound.nodes block).mpr inDag) not_false with ⟨_, _, -, tiles, -⟩
    refine List.Pairwise.imp_of_mem ?_ tiles.pairwise
    intro first second isFirst isSecond apart
    rcases interval_pos (bounds first (childIn block first isFirst)).1
      with ⟨firstInterval, firstRead⟩
    rcases interval_pos (bounds second (childIn block second isSecond)).1 with
      ⟨secondInterval, secondRead⟩
    refine ⟨firstInterval, secondInterval, firstRead, secondRead, ?_⟩
    rw [← interval_ok firstRead, ← interval_ok secondRead] at apart
    exact apart
  · intro upper upperIn block inDag
    rcases treeAncestorOf_of_pos (bounds upper upperIn).1 (bounds block inDag).1 with
      ⟨answer, answers⟩
    refine ⟨answer, answers, ?_⟩
    rw [treeAncestorOf_ok answers, ← index.below_iff ((sound.nodes upper).mpr upperIn)
      ((sound.nodes block).mpr inDag) not_false,
      follows_iff_below sound (fun block isBlock => (bounds block isBlock).1) inDag]

end WellIndexed

theorem reindexSlack_default (shares : RoundedShares) :
    (newReachabilityManager shares).reindexSlack.toNat = 4096 :=
  rfl

theorem ample_default {nodes : Nat} (few : nodes ≤ 2 ^ 45) : Ample 4096 nodes :=
  ⟨by decide, by omega⟩

/--
If every move of the reindex root finds GHOSTDAG data for the root it starts
from, every state of a run of fewer than `2 ^ 40` blocks is well indexed,
whatever the rounded shares are.
-/
theorem calls_wellIndexed {shares : RoundedShares} {blocks : List DomainHash}
    {store : ReachabilityDataStore}
    (calls : Calls (newReachabilityManager shares) RootHasData blocks store)
    (few : blocks.length < 2 ^ 40) : WellIndexed blocks store :=
  wellIndexed_of_indexedStore (store_of_calls (reindexSlack_default shares) calls
    (ample_default (by omega)))

/-! ## Space -/

/--
No call lacks space: neither another block nor another move of the root ends
in an interval that is too small, and the reindex root has room for all its
blocks.
-/
structure HasSpace (manager : ReachabilityManager) (blocks : List DomainHash)
    (store : ReachabilityDataStore) : Prop where
  addBlock : ∀ rounds ghostdagDataStore block, block ∉ blocks →
    (∀ data parent, ghostdagDataStore block = some data → data.selectedParent = some parent →
    parent ∈ blocks) → ∀ err, addBlock manager rounds ghostdagDataStore store block = .error err →
    ¬ LacksSpace err
  updateReindexRoot : ∀ rounds ghostdagDataStore, ∀ selectedTip ∈ blocks,
    RootHasData ghostdagDataStore store selectedTip → ∀ err,
    updateReindexRoot manager rounds ghostdagDataStore store selectedTip = .error err →
    ¬ LacksSpace err
  root : ∃ root interval, store.reindexRoot = .ok root ∧ store.interval root = .ok interval ∧
    size (shapeOf store).children root ≤ (intervalSize interval).toNat

theorem hasSpace_of_indexedStore {manager : ReachabilityManager}
    {blocks : List DomainHash} {store : ReachabilityDataStore} {slack : Nat}
    (isSlack : manager.reindexSlack.toNat = slack) (ample : Ample slack (blocks.length + 1))
    (sound : IndexedStore slack blocks store) : HasSpace manager blocks store := by
  have ample' := ample.mono (Nat.le_succ _)
  refine ⟨?_, ?_, ?_⟩
  · intro rounds dataStore block fresh parentIn err fails
    exact (addBlock_meets sound ample isSlack fresh parentIn).of_error fails
  · intro rounds dataStore _ tipIn hasData err fails
    exact (updateRoot_meets sound ample' isSlack tipIn hasData).of_error fails
  · rcases sound.indexed with ⟨root, isRoot, rootIn, index⟩
    have inTree := (sound.nodes root).mpr rootIn
    have bounds := index.bounds inTree
    have atMost := sound.tree.size_le_below (.refl _) inTree
    have few := (atMost.trans (size_le_length fun block =>
      (sound.nodes block).mp)).trans ample'.nodes_le
    have wide := index.wide sound.tree (ample'.mono (size_le_length
      fun block => (sound.nodes block).mp)) inTree (.refl root)
    rcases interval_pos bounds.1 with ⟨interval, read⟩
    have isSpan := interval_ok read
    refine ⟨root, interval, ?_, read, ?_⟩
    · rw [reindexRoot]
      change store.reachabilityReindexRoot = some root at isRoot
      rw [isRoot]
    · rw [toNat_size (by rw [isSpan]; exact bounds.1) (by rw [isSpan]; exact bounds.2.1), isSpan]
      omega

/--
If every move of the reindex root finds GHOSTDAG data for the root it starts
from, no call of a run of at most `2 ^ 40` blocks lacks space.
-/
theorem calls_hasSpace {shares : RoundedShares} {blocks : List DomainHash}
    {store : ReachabilityDataStore}
    (calls : Calls (newReachabilityManager shares) RootHasData blocks store)
    (few : blocks.length ≤ 2 ^ 40) : HasSpace (newReachabilityManager shares) blocks store := by
  have isSlack := reindexSlack_default shares
  have ample : Ample 4096 (blocks.length + 1) := ample_default (by omega)
  exact hasSpace_of_indexedStore isSlack ample
    (store_of_calls isSlack calls (ample.mono (Nat.le_succ _)))

/-! ## Runs on fixed blocks -/

/-- Shares by halving; one child takes everything and needs none. -/
def halvedShares : RoundedShares := fun totalBias _ _ => totalBias / 2

def blockHash (number : UInt8) : DomainHash := .filled number

/-- The GHOSTDAG data of a chain block whose merge set is its parent. -/
def chainData (blueScore : UInt64) (parent : DomainHash) : BlockGHOSTDAGData :=
  ⟨blueScore, some parent, [parent], []⟩

def tableStore (table : List (DomainHash × BlockGHOSTDAGData)) :
    GHOSTDAGDataStore :=
  fun blockHash => (table.find? (·.1 = blockHash)).map Prod.snd

/-- Blocks 1 to 3 under the virtual genesis, 4 under 3 and 5 under 1. -/
def fiveBlocks : List (DomainHash × BlockGHOSTDAGData) :=
  [(virtualGenesisBlockHash, ⟨0, none, [], []⟩), (blockHash 1, chainData 1 virtualGenesisBlockHash),
    (blockHash 2, chainData 1 virtualGenesisBlockHash),
    (blockHash 3, chainData 1 virtualGenesisBlockHash), (blockHash 4, chainData 1000 (blockHash 3)),
    (blockHash 5, chainData 1001 (blockHash 1))]

def withoutBlockThree : List (DomainHash × BlockGHOSTDAGData) :=
  fiveBlocks.filter (·.1 ≠ blockHash 3)

/-- Data for every block, that of the table where there is one. -/
def totalStore : GHOSTDAGDataStore :=
  fun blockHash => some ((tableStore fiveBlocks blockHash).getD
    (chainData 0 virtualGenesisBlockHash))

/-- The first four blocks, and a move of the root to block 3. -/
def fourBlocksRun (moveStore : GHOSTDAGDataStore) :
    Except ReachabilityError ReachabilityDataStore := do
  let manager := newReachabilityManager halvedShares
  let store ← addBlock manager 10 (tableStore fiveBlocks) (init emptyStore) (blockHash 1)
  let store ← addBlock manager 10 (tableStore fiveBlocks) store (blockHash 2)
  let store ← addBlock manager 10 (tableStore fiveBlocks) store (blockHash 3)
  let store ← addBlock manager 10 (tableStore fiveBlocks) store (blockHash 4)
  updateReindexRoot manager 10 moveStore store (blockHash 4)

/-- Block 3 is the reindex root; without its data block 2 becomes the root. -/
def resetRun : Except ReachabilityError ReachabilityDataStore := do
  let manager := newReachabilityManager halvedShares
  let store ← fourBlocksRun (tableStore withoutBlockThree)
  let store ← updateReindexRoot manager 10 (tableStore withoutBlockThree) store (blockHash 2)
  addBlock manager 10 (tableStore fiveBlocks) store (blockHash 5)

section FixedRuns

variable {Allowed : GHOSTDAGDataStore → ReachabilityDataStore → DomainHash → Prop}

/-- The selected parents in a table are in the given list. -/
theorem parent_of_table {table : List (DomainHash × BlockGHOSTDAGData)} {block : DomainHash}
    {blocks : List DomainHash} (inBlocks : ∀ entry ∈ table, entry.1 = block →
    (entry.2.selectedParent.all fun parent => parent ∈ blocks) = true) (data : BlockGHOSTDAGData)
    (parent : DomainHash) (found : tableStore table block = some data)
    (chosen : data.selectedParent = some parent) : parent ∈ blocks := by
  rw [tableStore, Option.map_eq_some_iff] at found
  rcases found with ⟨entry, finds, rfl⟩
  have isBlock := List.find?_some finds
  have isIn := inBlocks entry (List.mem_of_find?_eq_some finds) (of_decide_eq_true isBlock)
  rw [chosen, Option.all_some, decide_eq_true_eq] at isIn
  exact isIn

/-- The first four blocks and the first move, if it is allowed. -/
theorem calls_fourBlocks {moveStore : GHOSTDAGDataStore} {store : ReachabilityDataStore}
    (isOk : fourBlocksRun moveStore = .ok store) (may : ∀ prior,
    Allowed moveStore prior (blockHash 4)) : Calls (newReachabilityManager halvedShares) Allowed
    [blockHash 4, blockHash 3, blockHash 2, blockHash 1, virtualGenesisBlockHash] store := by
  rcases ok_of_bind isOk with ⟨one, addsOne, isOk⟩
  rcases ok_of_bind isOk with ⟨_, addsTwo, isOk⟩
  rcases ok_of_bind isOk with ⟨_, addsThree, isOk⟩
  rcases ok_of_bind isOk with ⟨four, addsFour, moves⟩
  have first : Calls (newReachabilityManager halvedShares) Allowed
      [blockHash 1, virtualGenesisBlockHash] one :=
    .addBlock 10 _ (blockHash 1) Calls.init (by decide) (parent_of_table (by decide)) addsOne
  have second := Calls.addBlock 10 _ (blockHash 2) first (by decide)
    (parent_of_table (by decide)) addsTwo
  have third := Calls.addBlock 10 _ (blockHash 3) second (by decide)
    (parent_of_table (by decide)) addsThree
  have fourth := Calls.addBlock 10 _ (blockHash 4) third (by decide)
    (parent_of_table (by decide)) addsFour
  exact Calls.updateReindexRoot 10 _ (blockHash 4) fourth (by decide) (may four) moves

/-- All blocks of the run that resets the root. -/
theorem calls_resetRun {store : ReachabilityDataStore} (isOk : resetRun = .ok store) :
    Calls (newReachabilityManager halvedShares) (fun _ _ _ => True)
    [blockHash 5, blockHash 4, blockHash 3, blockHash 2, blockHash 1, virtualGenesisBlockHash]
    store := by
  rcases ok_of_bind isOk with ⟨four, runs, isOk⟩
  rcases ok_of_bind isOk with ⟨_, moves, adds⟩
  have fourBlocks : Calls (newReachabilityManager halvedShares)
      (fun _ _ _ => True) _ four := calls_fourBlocks runs fun _ => trivial
  have reset := Calls.updateReindexRoot 10 _ (blockHash 2) fourBlocks (by decide) trivial moves
  exact Calls.addBlock 10 _ (blockHash 5) reset (by decide) (parent_of_table (by decide)) adds

end FixedRuns

/-- The first four blocks, all moves with data for the root. -/
theorem exists_fourBlocksRun : ∃ store, fourBlocksRun totalStore = .ok store ∧
      ∀ prior, RootHasData totalStore prior (blockHash 4) := by
  have evaluates : ((fourBlocksRun totalStore).toOption.bind fun store =>
      store.reindexRoot.toOption) = some (blockHash 3) := by
    decide +kernel
  rcases ok_of_toOption evaluates with ⟨store, runs, -⟩
  exact ⟨store, runs, fun _ _ _ _ => rfl⟩

theorem exists_fourBlocks : ∃ store, Calls (newReachabilityManager halvedShares) RootHasData
    [blockHash 4, blockHash 3, blockHash 2, blockHash 1, virtualGenesisBlockHash] store := by
  rcases exists_fourBlocksRun with ⟨store, runs, may⟩
  exact ⟨store, calls_fourBlocks runs may⟩

/-- Block 3, with a child, is counted before the whole tree of five nodes. -/
theorem countSubtrees_sizes_fourBlocks : ∃ store rc rc', fourBlocksRun totalStore = .ok store ∧
      [blockHash 3].foldlM (countSubtrees 5) (newReindexContext store) =
        .ok rc ∧ countSubtrees 5 rc virtualGenesisBlockHash = .ok rc' ∧
      ∃ count, rc'.subTreeSizesCache.lookup (blockHash 3) = some count ∧
        count.toNat = 1 + (((shapeOf store).children (blockHash 3)).map
          fun child => (cachedSize rc'.subTreeSizesCache child).toNat).sum := by
  have evaluates : (fourBlocksRun totalStore).toOption.map
      (fun store => [blockHash 4, blockHash 3, blockHash 2, blockHash 1,
      virtualGenesisBlockHash].all fun block => (store.data.lookup block).isSome) = some true := by
    decide +kernel
  rcases Option.map_eq_some_iff.mp evaluates with ⟨store, runs, stored⟩
  have sound := store_of_calls (reindexSlack_default halvedShares)
    (calls_fourBlocks (of_toOption_eq runs) fun _ _ _ _ => rfl) (ample_default (by decide))
  have few := size_le_length fun block => (sound.nodes block).mp
  have holds : HoldsTree store virtualGenesisBlockHash :=
    ⟨sound.tree, fun node below => List.all_eq_true.mp stored node ((sound.nodes node).mp below),
    few.trans_lt (by decide)⟩
  have thirdIn := (sound.nodes (blockHash 3)).mpr (by decide)
  rcases countSubtrees_sizes holds (List.forall_mem_singleton.mpr thirdIn)
    (.refl _) few with ⟨rc, rc', earlier, counts, sizes⟩
  rcases sizes _ thirdIn with ⟨count, found, sum, -⟩
  exact ⟨store, rc, rc', of_toOption_eq runs, earlier, counts, count, found, sum⟩

theorem calls_wellIndexed_fourBlocks :
    ∃ store, Calls (newReachabilityManager halvedShares) RootHasData
        [blockHash 4, blockHash 3, blockHash 2, blockHash 1, virtualGenesisBlockHash] store ∧
      WellIndexed [blockHash 4, blockHash 3, blockHash 2, blockHash 1,
        virtualGenesisBlockHash] store := by
  rcases exists_fourBlocks with ⟨store, calls⟩
  exact ⟨store, calls, calls_wellIndexed calls (by decide)⟩

theorem calls_hasSpace_fourBlocks : ∃ store, Calls (newReachabilityManager halvedShares) RootHasData
        [blockHash 4, blockHash 3, blockHash 2, blockHash 1, virtualGenesisBlockHash] store ∧
      HasSpace (newReachabilityManager halvedShares)
        [blockHash 4, blockHash 3, blockHash 2, blockHash 1, virtualGenesisBlockHash] store := by
  rcases exists_fourBlocks with ⟨store, calls⟩
  exact ⟨store, calls, calls_hasSpace calls (by decide)⟩

/--
A move without GHOSTDAG data for the reindex root makes block 2 the root; the
next block then leaves it with an empty interval, although every call returned
without an error and blue scores grow along the tree.
-/
theorem calls_not_wellIndexed_after_reset : (∀ entry ∈ fiveBlocks, ∀ other ∈ fiveBlocks,
      entry.2.selectedParent = some other.1 → other.2.blueScore ≤ entry.2.blueScore) ∧
    ∃ blocks store, blocks.length < 2 ^ 40 ∧
      Calls (newReachabilityManager halvedShares) (fun _ _ _ => True) blocks
        store ∧ store.interval (blockHash 2) = .ok ⟨4100, 4098⟩ ∧ ¬ WellIndexed blocks store := by
  refine ⟨by decide, ?_⟩
  have evaluates : (resetRun.toOption.bind fun store =>
      (store.interval (blockHash 2)).toOption) = some ⟨4100, 4098⟩ := by
    decide +kernel
  rcases ok_of_toOption evaluates with ⟨store, runs, reads⟩
  refine ⟨_, store, ?_, calls_resetRun runs, reads, ?_⟩
  · decide
  · intro wellIndexed
    rcases wellIndexed.nonempty (blockHash 2) (by decide) with ⟨interval, read, nonempty⟩
    rw [reads] at read
    cases read
    exact absurd nonempty (by decide)

def sixthBlock : List (DomainHash × BlockGHOSTDAGData) := [(blockHash 6, chainData 2 (blockHash 2))]

def errorOf {α : Type} : Except ReachabilityError α → Option ReachabilityError
  | .ok _ => none
  | .error err => some err

theorem error_of_errorOf {α : Type} {result : Except ReachabilityError α}
    {err : ReachabilityError} (fails : errorOf result = some err) : result = .error err := by
  cases result with
  | ok value => cases fails
  | error found =>
    cases fails
    rfl

/--
After a move without GHOSTDAG data for the reindex root, block 2 is the root
and has one number only; no block can be added under it.
-/
theorem addBlock_outOfCapacity_after_reset : ∃ blocks store, blocks.length ≤ 2 ^ 40 ∧
      Calls (newReachabilityManager halvedShares) (fun _ _ _ => True) blocks
        store ∧ blockHash 6 ∉ blocks ∧ blockHash 2 ∈ blocks ∧
      addBlock (newReachabilityManager halvedShares) 10
        (tableStore sixthBlock) store (blockHash 6) =
          .error (.reindexRootOutOfCapacity (blockHash 2)) := by
  have evaluates : ((fourBlocksRun (tableStore withoutBlockThree)).toOption.bind fun store =>
      (updateReindexRoot (newReachabilityManager halvedShares) 10 (tableStore withoutBlockThree)
      store (blockHash 2)).toOption.bind fun store => errorOf
      (addBlock (newReachabilityManager halvedShares) 10 (tableStore sixthBlock) store
      (blockHash 6))) = some (.reindexRootOutOfCapacity (blockHash 2)) := by
    decide +kernel
  rw [Option.bind_eq_some_iff] at evaluates
  rcases evaluates with ⟨four, runs, evaluates⟩
  rw [Option.bind_eq_some_iff] at evaluates
  rcases evaluates with ⟨store, moves, fails⟩
  have fourBlocks : Calls (newReachabilityManager halvedShares) (fun _ _ _ => True) _ four :=
    calls_fourBlocks (of_toOption_eq runs) fun _ => trivial
  have reset := Calls.updateReindexRoot 10 _ (blockHash 2) fourBlocks
    (by decide) trivial (of_toOption_eq moves)
  refine ⟨_, store, by decide, reset, by decide, by decide, ?_⟩
  exact error_of_errorOf fails

end Htnd.Reachability.Run
