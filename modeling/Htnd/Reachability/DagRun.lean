import Htnd.Lib.BlockDag
import Htnd.Reachability.FutureCovering

/-!
# Reachability in the block graph

Blocks are added with their parents, and the merge set of a block is its past
without the past of its selected parent.  Then every ancestor of a block is
above it in the tree, or has a node above it in its future covering set; and
what stands in a future covering set is in the future.  So `IsDAGAncestorOf`
answers for the graph, as long as the tree stays indexed.
-/

namespace Htnd.Reachability.DagRun

open Lib.Fallible Lib.RootedTree Lib.BlockDag List
open Utxo.Entry Reachability.Interval Reachability.Tree Reindex Manager Shape
  Invariant
open NewChild Concentrate Run FutureCovering Function Topological

/--
The selected parent is a parent, and the merge set is the past of the block
without the past of the selected parent.
-/
def MergeSetOf (dag : Dag DomainHash) (block : DomainHash)
    (parents : List DomainHash) (data : BlockGHOSTDAGData) : Prop :=
  ∃ selectedParent ∈ parents, data.selectedParent = some selectedParent ∧ ∀ other,
    other ∈ data.mergeSetBlues ++ data.mergeSetReds ↔ InPast dag other block ∧
    ¬ InPast dag other selectedParent

/-- The graph and the store after some successful calls. -/
inductive DagCalls (manager : ReachabilityManager) (Allowed : GHOSTDAGDataStore →
    ReachabilityDataStore → DomainHash → Prop) : Dag DomainHash → ReachabilityDataStore → Prop where
  | init : DagCalls manager Allowed [(virtualGenesisBlockHash, [])] (init emptyStore)
  | addBlock {dag : Dag DomainHash} {store store' : ReachabilityDataStore} (rounds : Nat)
      (ghostdagDataStore : GHOSTDAGDataStore) (blockHash : DomainHash) (parents : List DomainHash)
      (earlier : DagCalls manager Allowed dag store) (fresh : blockHash ∉ nodes dag)
      (known : ∀ parent ∈ parents, parent ∈ nodes dag)
      (mergeSet : ∀ data, ghostdagDataStore blockHash = some data →
      MergeSetOf ((blockHash, parents) :: dag) blockHash parents data)
      (success : addBlock manager rounds ghostdagDataStore store blockHash = .ok store') :
      DagCalls manager Allowed ((blockHash, parents) :: dag) store'
  | updateReindexRoot {dag : Dag DomainHash} {store store' : ReachabilityDataStore} (rounds : Nat)
      (ghostdagDataStore : GHOSTDAGDataStore) (selectedTip : DomainHash)
      (earlier : DagCalls manager Allowed dag store) (tipIn : selectedTip ∈ nodes dag)
      (allowed : Allowed ghostdagDataStore store selectedTip)
      (success : updateReindexRoot manager rounds ghostdagDataStore store selectedTip =
      .ok store') : DagCalls manager Allowed dag store'

variable {manager : ReachabilityManager} {Allowed : GHOSTDAGDataStore → ReachabilityDataStore →
  DomainHash → Prop} {dag : Dag DomainHash} {store store' : ReachabilityDataStore} {slack : Nat}

theorem DagCalls.topological (calls : DagCalls manager Allowed dag store) : Topological dag := by
  induction calls with
  | init => exact .cons .nil not_mem_nil (by simp)
  | addBlock rounds ghostdag block parents prior fresh known merged isOk ih =>
      exact .cons ih fresh known
  | updateReindexRoot rounds ghostdag tip prior tipIn may isOk ih => exact ih

/-- Forgetting the parents leaves the calls on the tree. -/
theorem DagCalls.calls (dagCalls : DagCalls manager Allowed dag store) :
    Calls manager Allowed (nodes dag) store := by
  induction dagCalls with
  | init => exact Calls.init
  | addBlock rounds ghostdag block parents prior fresh known merged isOk ih =>
      refine Calls.addBlock rounds ghostdag block ih fresh ?_ isOk
      intro data _ found chosen
      rcases merged data found with ⟨selectedParent, link, same, -⟩
      rw [chosen, Option.some.injEq] at same
      rw [same]
      exact known selectedParent link
  | updateReindexRoot rounds ghostdag tip prior tipIn may isOk ih =>
    exact Calls.updateReindexRoot rounds ghostdag tip ih tipIn may isOk

/-! ## The future covering sets cover the future -/

/-- What the future covering sets say about the graph. -/
structure Covering (dag : Dag DomainHash) (store : ReachabilityDataStore) : Prop where
  ordered : ∀ this, OrderedSet (nodes dag) (shapeOf store).children ((shapeOf store).covering this)
  inFuture : ∀ this, ∀ node ∈ (shapeOf store).covering this, InPast dag this node
  links : ∀ parent, ∀ child ∈ (shapeOf store).children parent, IsParent dag child parent
  complete : ∀ ancestor block, InPast dag ancestor block →
    Below (shapeOf store).children ancestor block ∨ ∃ node ∈ (shapeOf store).covering ancestor,
    Below (shapeOf store).children node block

variable {upper block : DomainHash}

theorem Covering.eq_or_inPast (covers : Covering dag store)
    (below : (shapeOf store).Below upper block) : upper = block ∨ InPast dag upper block := by
  induction below with
  | refl => exact .inl rfl
  | @tail middle block _ mem ih =>
    have link := InPast.of_parent (covers.links middle block mem)
    rcases ih with rfl | past
    · exact .inr link
    · exact .inr (past.trans link)

/-- The query answers for the graph. -/
theorem Covering.isDAGAncestorOf_iff (covers : Covering dag store)
    (sound : IndexedStore slack (nodes dag) store) (upperIn : upper ∈ nodes dag)
    (inDag : block ∈ nodes dag) : ∃ answer, store.isDAGAncestorOf upper block = .ok answer ∧
    (answer = true ↔ upper = block ∨ InPast dag upper block) := by
  rcases treeAncestorOf_eq sound upperIn inDag with ⟨inTree, treeAnswers, treeIff⟩
  rw [ReachabilityDataStore.isDAGAncestorOf, ok_bind treeAnswers]
  cases inTree with
  | true =>
    refine ⟨true, rfl, ?_⟩
    simpa using covers.eq_or_inPast (treeIff.mp rfl)
  | false =>
    have notBelow : ¬ (shapeOf store).Below upper block :=
      fun below => Bool.false_ne_true (treeIff.mpr below)
    rcases futureCoveringSetHasAncestorOf_eq sound upperIn inDag
      (covers.ordered upper) with ⟨answer, answers, iff⟩
    refine ⟨answer, answers, iff.trans ?_⟩
    constructor
    · rintro ⟨node, mem, below⟩
      have past := covers.inFuture upper node mem
      rcases covers.eq_or_inPast below with rfl | later
      · exact .inr past
      · exact .inr (past.trans later)
    · rintro (rfl | past)
      · exact absurd (.refl upper) notBelow
      · exact (covers.complete upper block past).resolve_left notBelow

theorem covering_init : Covering [(virtualGenesisBlockHash, [])] (init emptyStore) := by
  refine ⟨?_, ?_, ?_, ?_⟩
  · intro this
    rw [(shape_init this).2.2]
    exact ⟨List.Pairwise.nil, by simp⟩
  · simp [shape_init]
  · simp [shape_init]
  · intro _ _ past
    rcases Relation.TransGen.head'_iff.mp past with ⟨_, link, -⟩
    rcases link with ⟨_, mem, isParent⟩
    rw [mem_singleton] at mem
    cases mem
    cases isParent

/-- A move of the reindex root changes spans only. -/
theorem Covering.sameShape (covers : Covering dag store)
    (same : SameShape store store') : Covering dag store' := by
  rcases covers with ⟨ordered, inFuture, links, complete⟩
  constructor
  · rw [same.children, same.covering]
    exact ordered
  · rw [same.covering]
    exact inFuture
  · rw [same.children]
    exact links
  · rw [same.children, same.covering]
    exact complete

variable {parents : List DomainHash}

/-- A new leaf, registered with its merge set, is covered. -/
theorem Covering.addLeaf (covers : Covering dag store) (topo : Topological dag)
    {selectedParent : DomainHash} {merged : List DomainHash} (fresh : block ∉ nodes dag)
    (known : ∀ parent ∈ parents, parent ∈ nodes dag) (isParent : selectedParent ∈ parents)
    (merges : ∀ other, other ∈ merged ↔ InPast ((block, parents) :: dag) other block ∧
    ¬ InPast ((block, parents) :: dag) other selectedParent) {added : ReachabilityDataStore}
    (newLeaf : NewLeaf (shapeOf store).children (shapeOf added).children (shapeOf store).parent
    (shapeOf added).parent virtualGenesisBlockHash selectedParent block)
    (noCovering : (shapeOf added).covering = Function.update (shapeOf store).covering block [])
    (registered : Registered (nodes ((block, parents) :: dag)) merged block added store') :
    Covering ((block, parents) :: dag) store' := by
  have parentOld := known selectedParent isParent
  have pastOld : ∀ {upper other}, other ∈ nodes dag →
      (InPast ((block, parents) :: dag) upper other ↔ InPast dag upper other) :=
    fun isOld => topo.inPast_old fresh isOld
  have coveringOld : ∀ this, this ∈ nodes dag →
      (shapeOf added).covering this = (shapeOf store).covering this := by
    intro this isOld
    rw [noCovering, update_of_ne]
    rintro rfl
    exact fresh isOld
  have underParent : (shapeOf added).Below selectedParent block := by
    refine .of_child ?_
    simp [newLeaf.atNode]
  have oldCover : ∀ {upper other}, upper ∈ nodes dag → InPast dag upper other →
      (shapeOf added).Below upper other ∨ ∃ node ∈ (shapeOf store').covering upper,
      (shapeOf added).Below node other := by
    intro upper other isOld past
    rcases covers.complete upper other past with
      below | ⟨node, mem, below⟩
    · exact .inl (newLeaf.below_of_below below)
    · rw [← coveringOld upper isOld] at mem
      exact .inr ⟨node, registered.kept upper node mem, newLeaf.below_of_below below⟩
  constructor
  · intro this
    rw [registered.sameTree.children]
    exact registered.ordered this
  · intro this node mem
    rcases registered.onlyNew this node mem with old | ⟨rfl, inMergeSet⟩
    · by_cases isBlock : this = block
      · rw [noCovering, isBlock, update_self] at old
        cases old
      · rw [noCovering, update_of_ne isBlock] at old
        exact (pastOld ((covers.ordered this).inTree node old)).mpr (covers.inFuture this node old)
    · exact ((merges this).mp inMergeSet).1
  · intro parent child mem
    rw [registered.sameTree.children] at mem
    by_cases chosen : parent = selectedParent
    · rw [chosen, newLeaf.atNode, mem_append, mem_singleton] at mem
      rcases mem with old | rfl
      · have link := covers.links selectedParent child old
        rw [chosen]
        exact (isParent_old fresh link.node_mem).mpr link
      · rw [chosen]
        exact (isParent_new fresh).mpr isParent
    · rw [newLeaf.elsewhere parent chosen] at mem
      have link := covers.links parent child mem
      exact (isParent_old fresh link.node_mem).mpr link
  · intro upper other past
    rw [registered.sameTree.children]
    rcases mem_nodes.mp past.node_mem with rfl | isOld
    · by_cases inMergeSet : upper ∈ merged
      · exact .inr (registered.covered upper inMergeSet)
      have pastParent : InPast ((other, parents) :: dag) upper
          selectedParent := by
        by_contra notPast
        exact inMergeSet ((merges upper).mpr ⟨past, notPast⟩)
      have past' := (pastOld parentOld).mp pastParent
      rcases oldCover (topo.ancestor_mem past') past' with
        below | ⟨node, mem, below⟩
      · exact .inl (below.trans underParent)
      · exact .inr ⟨node, mem, below.trans underParent⟩
    · have past' := (pastOld isOld).mp past
      exact oldCover (topo.ancestor_mem past') past'

variable {dataStore : GHOSTDAGDataStore}

/-- `AddBlock` keeps the future covering sets. -/
theorem Covering.addBlock (covers : Covering dag store) (topo : Topological dag)
    (sound : IndexedStore slack (nodes dag) store) (ample : Ample slack ((nodes dag).length + 1))
    (isSlack : manager.reindexSlack.toNat = slack) {rounds : Nat} (fresh : block ∉ nodes dag)
    (known : ∀ parent ∈ parents, parent ∈ nodes dag) (merged : ∀ data, dataStore block = some data →
    MergeSetOf ((block, parents) :: dag) block parents data)
    (isOk : addBlock manager rounds dataStore store block = .ok store') :
    Covering ((block, parents) :: dag) store' := by
  have parentIn : ∀ data parent, dataStore block = some data →
      data.selectedParent = some parent → parent ∈ nodes dag := by
    intro data parent found chosen
    rcases merged data found with ⟨selectedParent, link, same, -⟩
    rw [chosen, Option.some.injEq] at same
    rw [same]
    exact known selectedParent link
  rcases (addBlock_meets sound ample isSlack fresh parentIn).of_ok isOk with ⟨data, selectedParent,
    added, withBlues, found, chosen, addedSound, newLeaf, noCovering, insertsBlues, insertsReds⟩
  rcases merged data found with ⟨parent, link, same, merges⟩
  rw [chosen, Option.some.injEq] at same
  rw [← same] at link merges
  have inDag : block ∈ nodes ((block, parents) :: dag) := mem_nodes.mpr (.inl rfl)
  have leaf := newLeaf.children'_leaf sound.tree
  have coveringsOk : ∀ this, OrderedSet (nodes ((block, parents) :: dag))
      (shapeOf added).children ((shapeOf added).covering this) := by
    intro this
    rw [noCovering, update_apply]
    split_ifs
    · exact ⟨List.Pairwise.nil, by simp⟩
    · have old := covers.ordered this
      exact ⟨old.ordered.imp fun precedes => precedes.newLeaf newLeaf,
        fun node mem => mem_nodes.mpr (.inr (old.inTree node mem))⟩
  have blues := insertCoverings_leaf addedSound inDag leaf coveringsOk insertsBlues
  have alike := blues.sameTree.children
  have reds : Registered (nodes ((block, parents) :: dag)) data.mergeSetReds
      block withBlues store' := by
    refine insertCoverings_leaf (addedSound.sameTree blues.sameTree) inDag ?_ ?_ insertsReds
    · rw [alike]
      exact leaf
    · rw [alike]
      exact blues.ordered
  exact covers.addLeaf topo fresh known link merges newLeaf noCovering (blues.append reds)

theorem covering_of_calls (isSlack : manager.reindexSlack.toNat = slack)
    (dagCalls : DagCalls manager RootHasData dag store)
    (ample : Ample slack (nodes dag).length) : Covering dag store := by
  induction dagCalls with
  | init => exact covering_init
  | addBlock rounds ghostdag block parents prior fresh known merged isOk ih =>
      have ample' := ample.mono (Nat.le_succ _)
      exact (ih ample').addBlock prior.topological
        (store_of_calls isSlack prior.calls ample') ample isSlack fresh known merged isOk
  | updateReindexRoot rounds ghostdag tip prior tipIn hasData isOk ih =>
    have sound := store_of_calls isSlack prior.calls ample
    exact (ih ample).sameShape (updateReindexRoot_ok sound ample isSlack tipIn hasData isOk).2

/--
If every move of the reindex root finds GHOSTDAG data for the root it starts
from, `IsDAGAncestorOf` agrees with the graph in every state of a run of at
most `2 ^ 40` blocks.
-/
theorem dagCalls_isDAGAncestorOf_iff {shares : RoundedShares}
    (dagCalls : DagCalls (newReachabilityManager shares) RootHasData dag store)
    (few : (nodes dag).length ≤ 2 ^ 40) {ancestor block : DomainHash}
    (ancestorIn : ancestor ∈ nodes dag) (blockIn : block ∈ nodes dag) :
    ∃ answer, store.isDAGAncestorOf ancestor block = .ok answer ∧
      (answer = true ↔ ancestor = block ∨ InPast dag ancestor block) := by
  have isSlack := reindexSlack_default shares
  have ample : Ample 4096 (nodes dag).length := ample_default (by omega)
  exact (covering_of_calls isSlack dagCalls ample).isDAGAncestorOf_iff
    (store_of_calls isSlack dagCalls.calls ample) ancestorIn blockIn

/-! ## Runs on fixed blocks -/

theorem DagCalls.addChainBlock (dagCalls : DagCalls manager Allowed dag store) (rounds : Nat)
    {parent : DomainHash} {blueScore : UInt64} (fresh : block ∉ nodes dag)
    (parentIn : parent ∈ nodes dag) (found : dataStore block = some (chainData blueScore parent))
    (isOk : Manager.addBlock manager rounds dataStore store block = .ok store') :
    DagCalls manager Allowed ((block, [parent]) :: dag) store' := by
  refine .addBlock rounds dataStore block [parent] dagCalls fresh (by simpa using parentIn) ?_ isOk
  intro _ isData
  rw [found, Option.some.injEq] at isData
  rw [← isData]
  have topological := dagCalls.topological
  refine ⟨parent, .head _, rfl, ?_⟩
  intro _
  rw [topological.inPast_new fresh (by simpa using parentIn), topological.inPast_old fresh parentIn]
  simp only [chainData, append_nil, mem_singleton, exists_eq_left]
  constructor
  · rintro rfl
    exact ⟨.inl rfl, topological.irrefl⟩
  · rintro ⟨same | past, notPast⟩
    · exact same
    · exact absurd past notPast

/-- The graph of the first four blocks. -/
def fourBlocksDag : Dag DomainHash :=
  [(blockHash 4, [blockHash 3]), (blockHash 3, [virtualGenesisBlockHash]),
    (blockHash 2, [virtualGenesisBlockHash]),
    (blockHash 1, [virtualGenesisBlockHash]), (virtualGenesisBlockHash, [])]

theorem dagCalls_fourBlocks {moveStore : GHOSTDAGDataStore}
    (isOk : fourBlocksRun moveStore = .ok store)
    (may : ∀ prior, Allowed moveStore prior (blockHash 4)) :
    DagCalls (newReachabilityManager halvedShares) Allowed fourBlocksDag
      store := by
  rcases ok_of_bind isOk with ⟨_, addsOne, isOk⟩
  rcases ok_of_bind isOk with ⟨_, addsTwo, isOk⟩
  rcases ok_of_bind isOk with ⟨_, addsThree, isOk⟩
  rcases ok_of_bind isOk with ⟨four, addsFour, moves⟩
  have start : DagCalls (newReachabilityManager halvedShares) Allowed
      [(virtualGenesisBlockHash, [])] (init emptyStore) := .init
  have first := start.addChainBlock 10 (by decide) (by decide) rfl addsOne
  have second := first.addChainBlock 10 (by decide) (by decide) rfl addsTwo
  have third := second.addChainBlock 10 (by decide) (by decide) rfl addsThree
  have fourth := third.addChainBlock 10 (by decide) (by decide) rfl addsFour
  exact .updateReindexRoot 10 _ (blockHash 4) fourth (by decide) (may four) moves

/-- A block over block 4 that merges block 2. -/
def mergingDag : Dag DomainHash := (blockHash 6, [blockHash 4, blockHash 2]) :: fourBlocksDag

def mergingStore : GHOSTDAGDataStore :=
  tableStore [(blockHash 6, ⟨1001, some (blockHash 4), [blockHash 4], [blockHash 2]⟩)]

theorem inPast_iff (topo : Topological dag) {other : DomainHash} (blockIn : block ∈ nodes dag) :
    InPast dag other block ↔ isAncestor dag other block = true ∧ other ≠ block := by
  rw [topo.isAncestor_iff blockIn]
  constructor
  · exact fun past => ⟨.inr past, fun same => topo.irrefl (same ▸ past)⟩
  · exact fun above => above.1.resolve_left above.2

theorem dagCalls_isDAGAncestorOf_merging :
    ∃ store, DagCalls (newReachabilityManager halvedShares) RootHasData mergingDag store ∧
      store.isDAGAncestorOf (blockHash 2) (blockHash 6) = .ok true ∧
      store.isDAGAncestorOf (blockHash 1) (blockHash 6) = .ok false := by
  have evaluates : ((fourBlocksRun totalStore >>= fun store => addBlock
      (newReachabilityManager halvedShares) 10 mergingStore store (blockHash 6)).toOption.map
      fun _ => true) = some true := by
    decide +kernel
  rcases Option.map_eq_some_iff.mp evaluates with ⟨store, runs, -⟩
  rcases ok_of_bind (of_toOption_eq runs) with ⟨four, runsFour, adds⟩
  have prior : DagCalls (newReachabilityManager halvedShares) RootHasData fourBlocksDag four :=
    dagCalls_fourBlocks runsFour fun _ _ _ _ => rfl
  have topo : Topological mergingDag := prior.topological.cons (by decide) (by decide)
  have merges : ∀ other ∈ nodes mergingDag, other ∈ [blockHash 4, blockHash 2] ↔
      InPast mergingDag other (blockHash 6) ∧ ¬ InPast mergingDag other (blockHash 4) := by
    intro other otherIn
    rw [inPast_iff topo (by decide), inPast_iff topo (by decide)]
    revert other
    decide +kernel
  have dagCalls : DagCalls (newReachabilityManager halvedShares) RootHasData mergingDag store := by
    refine .addBlock 10 mergingStore _ _ prior (by decide) (by decide) ?_ adds
    rintro _ ⟨⟩
    refine ⟨blockHash 4, .head _, rfl, fun other => ⟨fun isMerged => ?_, fun both => ?_⟩⟩
    · exact (merges other ((by decide : [blockHash 4, blockHash 2] ⊆ _) isMerged)).mp isMerged
    · exact (merges other (topo.ancestor_mem both.1)).mpr both
  have answers : ∀ ancestor ∈ nodes mergingDag, store.isDAGAncestorOf ancestor (blockHash 6) =
      .ok (isAncestor mergingDag ancestor (blockHash 6)) := by
    intro ancestor ancestorIn
    rcases dagCalls_isDAGAncestorOf_iff dagCalls (by decide) ancestorIn
      (by decide : blockHash 6 ∈ _) with ⟨answer, returns, iff⟩
    rw [← topo.isAncestor_iff (by decide), Bool.eq_iff_iff.symm] at iff
    rw [returns, iff]
  exact ⟨store, dagCalls, answers (blockHash 2) (by decide), answers (blockHash 1) (by decide)⟩

/--
After a move without GHOSTDAG data for the reindex root the intervals overlap,
and block 3 is taken for an ancestor of its sibling, block 2.
-/
theorem isDAGAncestorOf_sibling_after_reset : ∃ dag store, (nodes dag).length ≤ 2 ^ 40 ∧
      DagCalls (newReachabilityManager halvedShares) (fun _ _ _ => True) dag
        store ∧ blockHash 3 ∈ nodes dag ∧ blockHash 2 ∈ nodes dag ∧
      store.isDAGAncestorOf (blockHash 3) (blockHash 2) = .ok true ∧ ¬ (blockHash 3 = blockHash 2 ∨
        InPast dag (blockHash 3) (blockHash 2)) := by
  have evaluates : (resetRun.toOption.bind fun store =>
      (store.isDAGAncestorOf (blockHash 3) (blockHash 2)).toOption) = some true := by
    decide +kernel
  rcases ok_of_toOption evaluates with ⟨store, runs, answers⟩
  rcases ok_of_bind runs with ⟨four, runsFour, isOk⟩
  rcases ok_of_bind isOk with ⟨_, moves, adds⟩
  have fourBlocks : DagCalls (newReachabilityManager halvedShares)
      (fun _ _ _ => True) fourBlocksDag four := dagCalls_fourBlocks runsFour fun _ => trivial
  have reset := DagCalls.updateReindexRoot 10 _ (blockHash 2) fourBlocks (by decide) trivial moves
  have dagCalls := reset.addChainBlock 10 (by decide) (by decide) rfl adds
  refine ⟨_, store, by decide, dagCalls, by decide, by decide, answers, ?_⟩
  rw [← dagCalls.topological.isAncestor_iff (by decide)]
  decide

end Htnd.Reachability.DagRun
