import Htnd.Reachability.Reclaim

/-!
# Adding a block

A new block becomes the last child of its selected parent.  If the parent has
numbers left after its children, the block gets the first half of them.
Otherwise it starts with an empty span and is reindexed: the first ancestor
with enough room hands out its span again, or a node beside the chain to the
reindex root gets room from the chain.  Either way the tree is indexed again.
-/

namespace Htnd.Reachability.NewChild

open Lib.Fallible Lib.RootedTree Lib.SpanTree Utxo.Entry
open Reachability.Interval Reachability.Tree Reindex Manager Shape Outcome
  Subtrees Propagate
open Ancestors Invariant Reclaim Function

variable {shape : TreeShape} {genesis root : DomainHash} {spared : DomainHash → Prop} {slack : Nat}
  {manager : ReachabilityManager} {rounds : Nat}

/-! ## Reindexing upwards -/

section Reindexing

variable {rc rc' : ReindexContext} {here : DomainHash} (tree : shape.Rooted genesis)
  (ample : Ample slack (size shape.children genesis))

include tree

/-- Handing out the span of a node again leaves nothing spared. -/
theorem indexed_of_rewritten {span span' : DomainHash → Span}
    (index : Indexed shape.children genesis spared slack root span)
    (isSpared : ∀ other, spared other → shape.Below here other) (inTree : shape.Below genesis here)
    (notAbove : shape.Below here root → here = root)
    (rewritten : Rewritten shape.children here span span') :
    Indexed shape.children genesis (fun _ => False) slack root span' := by
  have frame : ∀ node, ¬ shape.Below here node → span' node = span node ∧
        ∀ child ∈ shape.children node, span' child = span child := by
    intro node beyond
    refine ⟨rewritten.outside node fun below => absurd below beyond, ?_⟩
    intro child mem
    refine rewritten.outside child fun below => ?_
    rcases below.cases_parent with same | ⟨_, isChild, path⟩
    · exact same.symm
    · rw [tree.parent_unique isChild mem] at path
      exact absurd path beyond
  refine ⟨⟨?_, ?_, nofun⟩, ?_⟩
  · rw [rewritten.outside genesis fun below =>
      tree.antisymm (.refl genesis) inTree below, index.atGenesis]
  · intro node nodeIn _
    by_cases below : shape.Below here node
    · exact rewritten.encloses node below
    · rcases frame node below with ⟨sameNode, alike⟩
      exact (index.encloses node nodeIn fun spares =>
        below (isSpared node spares)).congr sameNode alike
  · intro node nodeIn onChain ne
    have beyond : ¬ shape.Below here node := by
      intro below
      have isRoot := notAbove (below.trans onChain)
      rw [isRoot] at below
      exact ne (tree.antisymm nodeIn onChain below)
    rcases frame node beyond with ⟨sameNode, alike⟩
    exact (index.tight node nodeIn onChain ne).congr sameNode alike

include ample

/-- A subtree that is short of room is below a node other than the root. -/
theorem short_below_root (rootIn : shape.Below genesis root) {span : DomainHash → Span}
    (index : Indexed shape.children genesis spared slack root span)
    (inTree : shape.Below genesis here) (short : (span here).width < size shape.children here) :
    here ≠ root ∧ ∃ parent, shape.parent here = some parent := by
  have few := (tree.size_le_below (.refl genesis) inTree).trans ample.nodes_le
  have narrow : ¬ shape.Below here root := by
    intro onChain
    have wide := index.wide tree ample inTree onChain
    omega
  constructor
  · rintro rfl
    exact narrow (.refl here)
  · rcases inTree.cases_parent with rfl | ⟨parent, mem, -⟩
    · exact absurd rootIn narrow
    · exact ⟨parent, tree.mem_children.mp mem⟩

/-- A reindexing leaves nothing spared. -/
theorem reindexIntervals_meets (rootIn : shape.Below genesis root) (notSpared : ¬ spared root)
    (onlyLast : ∀ node, ∀ child ∈ (shape.children node).dropLast, ¬ spared child)
    (isSlack : manager.reindexSlack.toNat = slack) (steps : Nat) (ok : ContextOk shape rc)
    (index : Indexed shape.children genesis spared slack root (spanOf rc.store))
    (isSpared : ∀ other, spared other → shape.Below here other) (inTree : shape.Below genesis here)
    (notAbove : shape.Below here root → here = root) :
    Meets (fun rc' => ContextOk shape rc' ∧ Indexed shape.children genesis (fun _ => False) slack
    root (spanOf rc'.store)) (reindexIntervals manager rounds root steps rc here) := by
  have bound : size shape.children genesis < 2 ^ 64 := ample.nodes_le.trans_lt (by decide)
  induction steps generalizing rc here with
  | zero => exact not_false
  | succ steps ih =>
    refine (harmless_span rc.store here).read fun interval read => ?_
    refine (harmless_countSubtrees rounds rc here).read fun counted counts => ?_
    rcases countSubtrees_ok tree bound ok.isShape inTree ok.cached counts
      with ⟨sameStore, cached, hit⟩
    have countedOk : ContextOk shape counted := ⟨by rw [sameStore]; exact ok.isShape, cached⟩
    have isSize := cached.cachedSize_eq hit
    have bounds := index.bounds inTree
    have isSpan := interval_ok read
    have isWidth : (intervalSize interval).toNat = (spanOf rc.store here).width := by
      rw [toNat_size (by rw [isSpan]; exact bounds.1) (by rw [isSpan]; exact bounds.2.1), isSpan]
    rw [← sameStore] at index isWidth bounds
    by_cases enough : intervalSize interval ≥ cachedSize counted.subTreeSizesCache here
    · rw [if_pos enough]
      rw [ge_iff_le, UInt64.le_iff_toNat_le, isSize, isWidth] at enough
      refine (propagateInterval_meets tree bound countedOk inTree
        ⟨bounds.1, bounds.2.2, enough⟩).imp ?_
      rintro rc' ⟨ok', rewritten⟩
      exact ⟨ok', indexed_of_rewritten tree index isSpared inTree notAbove rewritten⟩
    · rw [if_neg enough]
      rw [ge_iff_le, UInt64.le_iff_toNat_le, isSize, isWidth, not_le] at enough
      rcases short_below_root tree ample rootIn index inTree enough with
        ⟨notRoot, parent, hasParent⟩
      refine (harmless_parent counted.store here).read fun _ readParent => ?_
      have link := parent_ok countedOk.isShape readParent
      rw [hasParent] at link
      cases link
      have mem := tree.mem_children.mpr hasParent
      have parentIn := tree.rooted mem
      dsimp only
      rw [if_neg notRoot]
      refine (harmless_isStrictAncestorOf counted.store parent root).read fun strict tests => ?_
      have strictIff : strict = true ↔ parent ≠ root ∧ shape.Below parent root := by
        rw [ReachabilityDataStore.isStrictAncestorOf] at tests
        split_ifs at tests with same
        · cases tests
          exact ⟨fun isTrue => absurd isTrue Bool.false_ne_true, fun both => absurd same both.1⟩
        · rw [treeAncestorOf_ok tests, ← index.below_iff parentIn rootIn notSpared]
          exact ⟨fun below => ⟨same, below⟩, And.right⟩
      by_cases isStrict : strict = true
      · rw [if_pos isStrict]
        rcases strictIff.mp isStrict with ⟨ne, onChain⟩
        exact reindexIntervalsEarlierThanRoot_meets ⟨tree, ample, index, mem, onChain, ne,
          fun below => notRoot (notAbove below), isSpared, enough⟩ (onlyLast parent) isSlack isSize
          countedOk
      · rw [if_neg isStrict]
        refine ih countedOk index (fun other spares =>
          (Below.of_child mem).trans (isSpared other spares)) parentIn fun onChain => ?_
        by_contra ne
        exact isStrict (strictIff.mpr ⟨ne, onChain⟩)

end Reindexing

/-! ## A new leaf -/

section NewLeaf

variable {children children' : DomainHash → List DomainHash}
  {parent parent' : DomainHash → Option DomainHash} {node leaf : DomainHash}
  {span span' : DomainHash → Span} {start stop width : Nat} (tree : Rooted children parent genesis)
  (new : NewLeaf children children' parent parent' genesis node leaf)
  (rootIn : Below children genesis root) (index : Indexed children genesis (fun _ => False) slack
  root span) (tiles : Tiles span start (children node) stop) (floor : (span node).lo ≤ start)
  (inside : stop + width < (span node).hi) (same : ∀ other, Below children genesis other →
  span' other = span other) (atLeaf : span' leaf = ⟨stop, stop + width⟩)

include same

theorem same_of_child {above child : DomainHash} (inTree : Below children genesis above)
    (mem : child ∈ children above) : span' child = span child :=
  same child (inTree.trans (.of_child mem))

include new tiles atLeaf

/-- The leaf continues the tiling of its parent. -/
theorem tiles_newLeaf : Tiles span' start (children' node) (stop + width) := by
  rw [new.atNode]
  refine tiles_append.mpr ⟨stop, tiles.congr fun _ mem => same_of_child same new.inTree mem, ?_⟩
  rw [Tiles, atLeaf]
  exact ⟨rfl, Nat.le_add_right _ _, rfl⟩

include tree index floor inside

theorem nested_newLeaf (isSpared : ∀ other, spared other ↔ other = leaf ∧ width = 0) :
    Nested children' genesis spared span' where
  atGenesis := by
    rw [same genesis (Below.refl genesis), index.atGenesis]
  encloses other inTree notSpared := by
    rcases (new.below'_iff tree).mp inTree with old | ⟨isLeaf, -⟩
    · by_cases isNode : other = node
      · rw [isNode]
        have continued := tiles_newLeaf new tiles same atLeaf
        rw [← same node new.inTree] at floor inside
        exact ⟨start, stop + width, floor, continued, inside⟩
      rcases index.encloses other old not_false with ⟨first, last, early, others, late⟩
      rw [← same other old] at early late
      refine ⟨first, last, early, ?_, late⟩
      rw [new.elsewhere other isNode]
      exact others.congr fun _ mem => same_of_child same old mem
    · refine encloses_leaf ?_ ?_
      · rw [isLeaf, new.children'_leaf tree]
      · rw [isLeaf, atLeaf]
        rw [isSpared] at notSpared
        have pos : width ≠ 0 := fun isZero => notSpared ⟨isLeaf, isZero⟩
        change stop < stop + width
        omega
  leaves other spares := by
    rw [((isSpared other).mp spares).1, new.children'_leaf tree]

include rootIn

theorem indexed_newLeaf (isSpared : ∀ other, spared other ↔ other = leaf ∧ width = 0) :
    Indexed children' genesis spared slack root span' := by
  refine ⟨nested_newLeaf tree new index tiles floor inside same atLeaf isSpared, ?_⟩
  intro other inTree onChain ne
  have toRoot : ∀ above, Below children' above root → Below children above root := by
    intro above below
    rcases (new.below'_iff tree).mp below with old | ⟨isLeaf, -⟩
    · exact old
    · rw [isLeaf] at rootIn
      exact absurd rootIn new.fresh
  have old : Below children genesis other := by
    rcases (new.below'_iff tree).mp inTree with old | ⟨isLeaf, -⟩
    · exact old
    · rcases (toRoot other onChain).cases_child with isRoot | ⟨child, mem, -⟩
      · exact absurd isRoot ne
      · exact tree.rooted mem
  have tight := index.tight other old (toRoot other onChain) ne
  have inner : children other ≠ [] := by
    rcases (toRoot other onChain).cases_child with isRoot | ⟨child, mem, -⟩
    · exact absurd isRoot ne
    · exact List.ne_nil_of_mem mem
  have narrow : ∀ child ∈ children other, ¬ Below children' child root →
      (span' child).width ≤ slack * size children' child := by
    intro child mem besides
    rw [same_of_child same old mem]
    refine (tight.2 child mem fun below => besides (new.below_of_below below)).trans ?_
    exact Nat.mul_le_mul_left _ (new.size_le tree (old.trans (.of_child mem)))
  rcases tight.1 with ⟨before, after, ⟨last, others, atEnd⟩, early, late⟩
  by_cases isNode : other = node
  · rw [isNode] at others atEnd inner narrow ⊢
    rcases others.ends_unique tiles inner with ⟨isStart, _⟩
    refine ⟨⟨before, after - width, ⟨stop + width, ?_, ?_⟩, early, ?_⟩, ?_⟩
    · rw [same node new.inTree, isStart]
      exact tiles_newLeaf new tiles same atLeaf
    · rw [same node new.inTree]
      omega
    · omega
    · intro child mem besides
      rcases new.mem_children'.mp mem with isOld | ⟨-, isLeaf⟩
      · exact narrow child isOld besides
      rw [isLeaf, atLeaf, Span.width]
      have pos := (new.rooted tree).size_pos (new.below_of_below new.inTree |>.trans
          (.of_child (new.mem_children'.mpr (.inr ⟨rfl, rfl⟩))))
      have scaled := Nat.le_mul_of_pos_right slack pos
      dsimp only
      omega
  · refine ⟨⟨before, after, ⟨last, ?_, ?_⟩, early, late⟩, ?_⟩
    · rw [same other old, new.elsewhere other isNode]
      exact others.congr fun child mem => same_of_child same old mem
    · rw [same other old]
      exact atEnd
    · intro child mem besides
      rw [new.elsewhere other isNode] at mem
      exact narrow child mem besides

end NewLeaf

/-! ## `addChild` -/

section AddChild

variable {store store' : ReachabilityDataStore} {blocks : List DomainHash} {node child : DomainHash}

/-- The tiling whose end is where the next child starts. -/
theorem tiles_for_child {children : DomainHash → List DomainHash} {span : DomainHash → Span}
    (encloses : Encloses span children node) : ∃ start stop, (span node).lo ≤ start ∧
    Tiles span start (children node) stop ∧ stop < (span node).hi ∧
    (children node = [] → stop = (span node).lo) := by
  by_cases isLeaf : children node = []
  · refine ⟨(span node).lo, (span node).lo, le_rfl, ?_, encloses.nonempty, fun _ => rfl⟩
    rw [isLeaf]
    rfl
  · rcases encloses with ⟨start, stop, floor, tiles, atMost⟩
    exact ⟨start, stop, floor, tiles, atMost, fun isNil => absurd isNil isLeaf⟩

/-- The child lists and parent pointers after both were staged. -/
theorem newLeaf_of_staged (sound : IndexedStore slack blocks store) (parentIn : node ∈ blocks)
    (fresh : child ∉ blocks) {withChild withParent : ReachabilityDataStore}
    (addsChild : store.stageAddChild node child = .ok withChild)
    (setsParent : withChild.stageParent child node = .ok withParent) :
    NewLeaf (shapeOf store).children (shapeOf withParent).children (shapeOf store).parent
    (shapeOf withParent).parent virtualGenesisBlockHash node child ∧ (shapeOf withParent).covering =
    (shapeOf store).covering ∧ (shapeOf withParent).reindexRoot = (shapeOf store).reindexRoot ∧
    spanOf withParent = spanOf store := by
  rcases stageAddChild_ok addsChild with ⟨children, parent, covers, reindexRoot, span⟩
  rcases stageParent_ok setsParent with ⟨children', parent', covering', reindexRoot', span'⟩
  rw [children] at children'
  rw [parent] at parent'
  rw [children', parent']
  refine ⟨⟨(sound.nodes node).mpr parentIn, fun below => fresh ((sound.nodes child).mp below),
    update_self .., fun other ne => update_of_ne ne _ _, update_self ..,
    fun other ne => update_of_ne ne _ _⟩, covering'.trans covers, reindexRoot'.trans reindexRoot,
    span'.trans span⟩

section Staged

variable {withParent : ReachabilityDataStore} (sound : IndexedStore slack blocks store)
  (isRoot : (shapeOf store).reindexRoot = some root) (rootIn : root ∈ blocks)
  (index : Indexed (shapeOf store).children virtualGenesisBlockHash (fun _ => False) slack root
  (spanOf store)) (new : NewLeaf (shapeOf store).children (shapeOf withParent).children
  (shapeOf store).parent (shapeOf withParent).parent virtualGenesisBlockHash node child)
  (sameRoot : (shapeOf withParent).reindexRoot = (shapeOf store).reindexRoot)
  (sameSpan : spanOf withParent = spanOf store)

include sound new

theorem nodes_newLeaf (block : DomainHash) : Below (shapeOf withParent).children
    virtualGenesisBlockHash block ↔ block ∈ child :: blocks := by
  rw [new.below'_iff sound.tree, sound.nodes, List.mem_cons, or_comm]
  exact or_congr_left (and_iff_left new.inTree)

theorem last_newLeaf {above other : DomainHash}
    (mem : other ∈ ((shapeOf withParent).children above).dropLast) : other ≠ child := by
  rintro rfl
  by_cases isNode : above = node
  · rw [isNode, new.atNode, List.dropLast_concat] at mem
    exact new.leaf_not_child sound.tree mem
  · rw [new.elsewhere above isNode] at mem
    exact new.leaf_not_child sound.tree (List.dropLast_subset _ mem)

include isRoot rootIn sameRoot

theorem indexedStore_newLeaf (sameShape : shapeOf store' = shapeOf withParent)
    (indexed' : Indexed (shapeOf withParent).children virtualGenesisBlockHash (fun _ => False) slack
    root (spanOf store')) : IndexedStore slack (child :: blocks) store' := by
  constructor
  · rw [sameShape]
    exact new.rooted sound.tree
  · rw [sameShape]
    exact nodes_newLeaf sound new
  · refine ⟨root, ?_, .tail child rootIn, ?_⟩
    · rw [sameShape, sameRoot, isRoot]
    · rw [sameShape]
      exact indexed'

variable {start stop : Nat} (tiles : Tiles (spanOf store) start ((shapeOf store).children node)
  stop) (floor : (spanOf store node).lo ≤ start) {interval : ReachabilityInterval}
  (stages : withParent.stageInterval child interval = .ok store')

include index sameSpan tiles floor stages

omit isRoot sameRoot in
/-- The tree once the span of the child was staged. -/
theorem indexed_staged (startsAt : interval.span.lo = stop)
    (upward : interval.span.lo ≤ interval.span.hi)
    (inside : interval.span.hi < (spanOf store node).hi)
    (isSpared : ∀ other, spared other ↔ other = child ∧ interval.span.lo = interval.span.hi) :
    Indexed (shapeOf withParent).children virtualGenesisBlockHash spared slack root
    (spanOf store') := by
  rw [(stageInterval_ok stages).2, sameSpan]
  have ends : stop + (interval.span.hi - stop) = interval.span.hi := by omega
  refine indexed_newLeaf sound.tree new ((sound.nodes root).mpr rootIn)
    index tiles floor (by rw [ends]; exact inside) ?_ ?_ ?_
  · intro other below
    refine update_of_ne ?_ _ _
    rintro rfl
    exact new.fresh below
  · rw [update_self, ends, ← startsAt]
  · intro other
    rw [isSpared]
    refine and_congr_right fun _ => ?_
    omega

/-- The child got an empty span and was reindexed. -/
theorem reindexed_meets (ample : Ample slack (blocks.length + 1))
    (isSlack : manager.reindexSlack.toNat = slack) (startsAt : interval.span.lo = stop)
    (empty : interval.span.lo = interval.span.hi)
    (inside : interval.span.hi < (spanOf store node).hi) :
    Meets (fun rc => IndexedStore slack (child :: blocks) rc.store ∧
    shapeOf rc.store = shapeOf withParent) (reindexIntervals manager rounds root rounds
    (newReindexContext store') child) := by
  have nodes := nodes_newLeaf sound new
  have indexed' := indexed_staged sound rootIn index new sameSpan
    tiles floor stages startsAt empty.le inside fun other => (and_iff_left empty).symm
  have ok : ContextOk (shapeOf withParent) (newReindexContext store') :=
    ⟨(stageInterval_ok stages).1, sizesCached_empty⟩
  have notChild : root ≠ child := by
    rintro rfl
    exact new.fresh ((sound.nodes root).mpr rootIn)
  refine (reindexIntervals_meets (new.rooted sound.tree)
    (ample.mono (size_le_length fun block => (nodes block).mp))
    ((nodes root).mpr (.tail child rootIn)) notChild (fun _ _ => last_newLeaf sound new) isSlack
    rounds ok indexed' (fun other isChild => by rw [isChild]; exact Below.refl child)
    ((nodes child).mpr (.head _)) (fun below => by
      rcases below.cases_child with same | ⟨_, mem, -⟩
      · exact same
      · rw [new.children'_leaf sound.tree] at mem
        exact absurd mem List.not_mem_nil)).imp ?_
  rintro rc ⟨reindexed, index⟩
  exact ⟨indexedStore_newLeaf sound isRoot rootIn new sameRoot
    reindexed.isShape index, reindexed.isShape⟩

end Staged

/-- The block is a new leaf under the node, in a tree that is indexed. -/
structure LeafAdded (slack : Nat) (blocks : List DomainHash)
    (store store' : ReachabilityDataStore) (node child : DomainHash) : Prop where
  sound : IndexedStore slack (child :: blocks) store'
  newLeaf : NewLeaf (shapeOf store).children (shapeOf store').children
    (shapeOf store).parent (shapeOf store').parent virtualGenesisBlockHash node child
  covering : (shapeOf store').covering = (shapeOf store).covering

theorem addChild_meets (sound : IndexedStore slack blocks store)
    (ample : Ample slack (blocks.length + 1)) (isSlack : manager.reindexSlack.toNat = slack)
    (parentIn : node ∈ blocks) (fresh : child ∉ blocks)
    (isRoot : (shapeOf store).reindexRoot = some root) :
    Meets (fun store' => LeafAdded slack blocks store store' node child)
    (addChild manager rounds store node child root) := by
  rcases sound.indexed with ⟨_, isRoot', rootIn, index⟩
  rw [isRoot] at isRoot'
  cases isRoot'
  have nodeIn := (sound.nodes node).mpr parentIn
  have bounds := index.bounds nodeIn
  refine (harmless_remainingAfter store node).read fun rest remains => ?_
  refine (harmless_stageAddChild store node child).read fun withChild addsChild => ?_
  refine (harmless_stageParent withChild child node).read fun withParent setsParent => ?_
  rcases newLeaf_of_staged sound parentIn fresh addsChild setsParent with
    ⟨new, sameCovering, sameRoot, sameSpan⟩
  rcases tiles_for_child (index.encloses node nodeIn not_false) with
    ⟨_, stop, floor, tiles, atMost, isLeaf⟩
  have isRemaining := remainingIntervalAfter_ok rfl tiles bounds.1 bounds.2.2
    floor atMost isLeaf remains
  have upward := tiles.le
  have startsAt : rest.span.lo = stop := by rw [isRemaining]
  have endsAt : rest.span.hi + 1 = (spanOf store node).hi := by
    rw [isRemaining]
    change _ - 1 + 1 = _
    omega
  have isZero := intervalSize_eq_zero_iff (by omega : 1 ≤ rest.span.lo) (by omega)
  have leafAdded : ∀ store', IndexedStore slack (child :: blocks) store' ∧
      shapeOf store' = shapeOf withParent → LeafAdded slack blocks store store' node child := by
    rintro store' ⟨sound', sameShape⟩
    refine ⟨sound', ?_, ?_⟩
    · rw [sameShape]
      exact new
    · rw [sameShape, sameCovering]
  split_ifs with empty
  · refine (harmless_stage withParent child rest).read fun _ stages => ?_
    refine .bind (reindexed_meets sound isRoot rootIn index new
      sameRoot sameSpan tiles floor stages ample isSlack startsAt (isZero.mp empty) (by omega)) ?_
    exact fun rc => leafAdded rc.store
  · rcases intervalSplitInHalf_eq (by omega) (by omega) empty with
      ⟨allocated, _, splits, sameStart, nonempty, _⟩
    rw [ok_bind splits]
    refine .of_read (harmless_stage withParent child allocated)
      fun store' stages => leafAdded store' ?_
    refine ⟨indexedStore_newLeaf sound isRoot rootIn new sameRoot
      (stageInterval_ok stages).1 ?_, (stageInterval_ok stages).1⟩
    refine indexed_staged sound rootIn index new sameSpan tiles floor
      stages (sameStart.trans startsAt) nonempty.le (by omega) fun _ => ?_
    exact ⟨False.elim, fun both => absurd both.2 nonempty.ne⟩

end AddChild

/-! ## `AddBlock` -/

section AddBlock

variable {store store' : ReachabilityDataStore} {blocks : List DomainHash} {blockHash : DomainHash}

/-- Staging fresh data does not touch the tree. -/
theorem indexedStore_stageData (sound : IndexedStore slack blocks store)
    (fresh : blockHash ∉ blocks) : IndexedStore slack blocks
    (store.stageData blockHash newReachabilityTreeData) ∧
    (shapeOf (store.stageData blockHash newReachabilityTreeData)).children =
    (shapeOf store).children ∧ (shapeOf (store.stageData blockHash newReachabilityTreeData)).parent
    = (shapeOf store).parent := by
  have tree := sound.tree
  have beyond : ¬ (shapeOf store).Below virtualGenesisBlockHash
      blockHash := fun below => fresh ((sound.nodes blockHash).mp below)
  have alike : (shapeOf (store.stageData blockHash newReachabilityTreeData)).children =
      (shapeOf store).children := by
    rw [children_stage, update_eq_self_iff, eq_comm, newReachabilityTreeData, emptyReachabilityData,
      List.eq_nil_iff_forall_not_mem]
    exact fun _ mem => beyond (tree.rooted mem)
  have sameParent : (shapeOf (store.stageData blockHash newReachabilityTreeData)).parent =
      (shapeOf store).parent := by
    rw [parent_stage, update_eq_self_iff, eq_comm, newReachabilityTreeData, emptyReachabilityData,
      Option.eq_none_iff_forall_ne_some]
    intro parent link
    have mem := tree.mem_children.mpr link
    exact beyond ((tree.rooted mem).trans (.of_child mem))
  refine ⟨⟨?_, ?_, ?_⟩, alike, sameParent⟩
  · rw [alike, sameParent]
    exact tree
  · rw [alike]
    exact sound.nodes
  · rcases sound.indexed with ⟨root, isRoot, rootIn, index⟩
    rw [alike]
    refine ⟨root, isRoot, rootIn, index.congr fun _ inTree => ?_⟩
    rw [span_stage]
    refine update_of_ne ?_ _ _
    rintro rfl
    exact beyond inTree

theorem insertCoverings_ok {nodes : List DomainHash}
    (isOk : insertToFutureCoveringSets blockHash nodes store = .ok store') :
    SameTree store store' := by
  induction nodes generalizing store with
  | nil =>
    cases isOk
    exact .refl _
  | cons node nodes ih =>
    rcases ok_of_bind isOk with ⟨_, inserts, rest⟩
    exact (insertToFutureCoveringSet_ok inserts).trans (ih rest)

/-- The steps of `AddBlock`: a new leaf, then the future covering sets. -/
structure BlockAdded (slack : Nat) (blocks : List DomainHash)
    (ghostdagDataStore : GHOSTDAGDataStore) (blockHash : DomainHash)
    (store store' : ReachabilityDataStore) (data : BlockGHOSTDAGData)
    (selectedParent : DomainHash) (added withBlues : ReachabilityDataStore) : Prop where
  found : ghostdagDataStore blockHash = some data
  selected : data.selectedParent = some selectedParent
  sound : IndexedStore slack (blockHash :: blocks) added
  newLeaf : NewLeaf (shapeOf store).children (shapeOf added).children
    (shapeOf store).parent (shapeOf added).parent virtualGenesisBlockHash selectedParent blockHash
  noCovering : (shapeOf added).covering = Function.update (shapeOf store).covering blockHash []
  insertsBlues : insertToFutureCoveringSets blockHash data.mergeSetBlues added = .ok withBlues
  insertsReds : insertToFutureCoveringSets blockHash data.mergeSetReds withBlues = .ok store'

section

variable (sound : IndexedStore slack blocks store) (ample : Ample slack (blocks.length + 1))
  (isSlack : manager.reindexSlack.toNat = slack) (fresh : blockHash ∉ blocks)
  {ghostdagDataStore : GHOSTDAGDataStore} (parentIn : ∀ data parent, ghostdagDataStore blockHash =
  some data → data.selectedParent = some parent → parent ∈ blocks)

include sound ample isSlack fresh parentIn

theorem addBlock_meets : Meets (fun store' => ∃ data selectedParent added withBlues,
    BlockAdded slack blocks ghostdagDataStore blockHash store store' data selectedParent added
    withBlues) (addBlock manager rounds ghostdagDataStore store blockHash) := by
  rcases indexedStore_stageData sound fresh with ⟨staged, alike, sameParent⟩
  rw [addBlock]
  cases found : ghostdagDataStore blockHash with
  | none => exact not_false
  | some data =>
    refine (harmless_reindexRoot _).read fun _ readRoot => ?_
    have isRoot := reindexRoot_ok rfl readRoot
    cases chosen : data.selectedParent with
    | none => exact not_false
    | some selectedParent =>
      refine .bind (addChild_meets staged ample isSlack
        (parentIn data selectedParent found chosen) fresh isRoot) fun added leaf => ?_
      refine (harmless_insertCoverings _ _ added).read fun withBlues insertsBlues => ?_
      refine .of_read (harmless_insertCoverings _ _ withBlues) fun store' insertsReds => ?_
      refine ⟨data, selectedParent, added, withBlues, found, chosen,
        leaf.sound, ?_, ?_, insertsBlues, insertsReds⟩
      · rw [← alike, ← sameParent]
        exact leaf.newLeaf
      · rw [leaf.covering, covering_stage]
        rfl

end

end AddBlock

end Htnd.Reachability.NewChild
