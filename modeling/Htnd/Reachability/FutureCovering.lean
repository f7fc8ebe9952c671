import Htnd.Lib.TreeOrder
import Htnd.Reachability.Run

/-!
# Future covering sets

The future covering set of a block holds unrelated nodes of the tree in tree
order, so the binary search by interval end finds the only one that can be an
ancestor of a given block.  Inserting a new leaf keeps the set ordered, adds
at most the leaf, and covers it.
-/

namespace Htnd.Reachability.FutureCovering

open Lib.Fallible Lib.RootedTree Lib.SpanTree Lib.TreeOrder List
open Utxo.Entry Reachability.Interval Reachability.Tree Manager Shape Ancestors
  Invariant Run

variable {store store' : ReachabilityDataStore} {blocks : List DomainHash} {slack : Nat}

/-! ## The binary search -/

/-- The search ends if every interval can be read. -/
theorem searchByIntervalEnd_total {tns : List DomainHash} (end_ : UInt64)
    (readable : ∀ node ∈ tns, ∃ interval, store.interval node = .ok interval)
    (rounds : Nat) {low high : Nat} (atMost : high ≤ tns.length) (enough : high ≤ low + rounds) :
    ∃ result, store.searchByIntervalEnd tns end_ rounds low high = .ok result := by
  fun_induction store.searchByIntervalEnd tns end_ rounds low high with
  | case1 => omega
  | case2 | case5 => exact ⟨_, rfl⟩
  | case3 rounds low high narrower middle beyond =>
    rw [List.getElem?_eq_none_iff] at beyond
    omega
  | case4 rounds low high narrower middle middleNode found ihBelow ihAbove =>
    rcases readable _ (mem_of_getElem? found) with ⟨interval, read⟩
    rw [ok_bind read]
    split_ifs
    · exact ihBelow (by omega) (by omega)
    · exact ihAbove atMost (by omega)

/-- An ordered list splits where a downward closed property ends. -/
theorem split_of_pairwise {α : Type} {R : α → α → Prop} {P : α → Prop} {nodes : List α}
    (ordered : nodes.Pairwise R) (closed : ∀ first second, R first second → P second → P first) :
    ∃ front back, nodes = front ++ back ∧ (∀ node ∈ front, P node) ∧ ∀ node ∈ back, ¬ P node := by
  induction ordered with
  | nil => exact ⟨[], [], rfl, by simp, by simp⟩
  | @cons node nodes before _ ih =>
    by_cases holds : P node
    · rcases ih with ⟨front, back, rfl, early, late⟩
      refine ⟨node :: front, back, rfl, ?_, late⟩
      simpa [holds] using early
    refine ⟨[], node :: nodes, rfl, by simp, ?_⟩
    intro other isIn
    rcases mem_cons.mp isIn with rfl | isIn
    · exact holds
    · exact fun otherHolds => holds (closed node other (before other isIn) otherHolds)

/-! ## Ordered sets of tree nodes -/

/-- Nodes of the tree in tree order, none above another. -/
structure OrderedSet (blocks : List DomainHash)
    (children : DomainHash → List DomainHash) (nodes : List DomainHash) : Prop where
  ordered : nodes.Pairwise (Precedes children)
  inTree : ∀ node ∈ nodes, node ∈ blocks

variable {front back : List DomainHash} {upper : DomainHash}

section Ordered

variable (sound : IndexedStore slack blocks store)

include sound

/-- What is known of the span of a block. -/
theorem span_of_block {block : DomainHash} (inDag : block ∈ blocks) : 1 ≤ (spanOf store block).lo ∧
    (spanOf store block).lo < (spanOf store block).hi := by
  rcases sound.indexed with ⟨_, -, -, index⟩
  have inTree := (sound.nodes block).mpr inDag
  exact ⟨(index.bounds inTree).1, (index.encloses block inTree not_false).nonempty⟩

theorem below_iff {block other : DomainHash} (inDag : block ∈ blocks) (otherIn : other ∈ blocks) :
    (shapeOf store).Below block other ↔ (spanOf store block).Contains (spanOf store other) := by
  rcases sound.indexed with ⟨_, -, -, index⟩
  exact index.below_iff ((sound.nodes block).mpr inDag) ((sound.nodes other).mpr otherIn) not_false

theorem apart_of_precedes {first second : DomainHash}
    (precedes : Precedes (shapeOf store).children first second) :
    (spanOf store first).hi ≤ (spanOf store second).lo := by
  rcases sound.indexed with ⟨_, -, -, index⟩
  exact precedes.apart sound.tree fun node inTree _ => index.encloses node inTree not_false

variable {covering : List DomainHash} {block : DomainHash}
  (covers : OrderedSet blocks (shapeOf store).children covering) (inDag : block ∈ blocks)

include covers

/-- The set splits into the nodes that start before a number and the rest. -/
theorem split_at (limit : Nat) : ∃ front back, covering = front ++ back ∧
      (∀ node ∈ front, (spanOf store node).lo < limit) ∧
      ∀ node ∈ back, limit ≤ (spanOf store node).lo := by
  have starts : covering.Pairwise fun first second =>
      (spanOf store first).lo < (spanOf store second).lo := by
    refine covers.ordered.imp_of_mem ?_
    intro first second isFirst _ precedes
    exact (span_of_block sound (covers.inTree first isFirst)).2.trans_le
      (apart_of_precedes sound precedes)
  rcases split_of_pairwise starts (P := fun node => (spanOf store node).lo < limit)
    (fun _ _ before holds => before.trans holds) with ⟨front, back, split, early, late⟩
  exact ⟨front, back, split, early, fun node isNode => not_lt.mp (late node isNode)⟩

include inDag

/-- Only the last node that starts early enough can be an ancestor. -/
theorem last_of_ancestor (split : covering = front ++ back)
    (early : ∀ node ∈ front, (spanOf store node).lo < (spanOf store block).hi)
    (late : ∀ node ∈ back, (spanOf store block).hi ≤ (spanOf store node).lo)
    (mem : upper ∈ covering) (below : (shapeOf store).Below upper block) :
    front.getLast? = some upper := by
  have contains := (below_iff sound (covers.inTree upper mem) inDag).mp below
  have nonempty := (span_of_block sound inDag).2
  rw [split] at mem
  rcases mem_append.mp mem with inFront | inBack
  · rcases append_of_mem inFront with ⟨_, after, isFront⟩
    cases after with
    | nil => simp [isFront]
    | cons next after =>
      have ordered := covers.ordered
      rw [split, isFront, append_assoc, pairwise_append] at ordered
      have precedes := (pairwise_cons.mp ordered.2.1).1 next (by simp)
      have apart := apart_of_precedes sound precedes
      have starts := early next (by simp [isFront])
      have ends := contains.2
      omega
  · have starts := late upper inBack
    have floor := contains.1
    omega

omit inDag in
theorem readable_of_ordered : ∀ node ∈ covering, ∃ interval, store.interval node = .ok interval :=
  fun node isNode => interval_pos (span_of_block sound (covers.inTree node isNode)).1

/-- The search splits the set at the end of the interval of the block. -/
theorem split_of_search {interval : ReachabilityInterval}
    (read : store.interval block = .ok interval) : ∃ front back, covering = front ++ back ∧
    (∀ node ∈ front, (spanOf store node).lo < (spanOf store block).hi) ∧
    (∀ node ∈ back, (spanOf store block).hi ≤ (spanOf store node).lo) ∧
    (∀ upper ∈ covering, (shapeOf store).Below upper block → front.getLast? = some upper) ∧
    store.findAncestorIndexOfNode covering block =
    .ok (if front = [] then none else some (front.length - 1)) := by
  have isEnd : interval.end_.toNat + 1 = (spanOf store block).hi :=
    congrArg Span.hi (interval_ok read)
  have readable := readable_of_ordered sound covers
  rcases split_at sound covers (spanOf store block).hi with ⟨front, back, rfl, early, late⟩
  refine ⟨front, back, rfl, early, late,
    fun _ => last_of_ancestor sound covers inDag rfl early late, ?_⟩
  rcases searchByIntervalEnd_total interval.end_ readable (front ++ back).length
    le_rfl (Nat.le_add_left _ 0) with ⟨_, searched⟩
  have isLength := searchByIntervalEnd_ok
    (fun node isNode => by have starts := early node isNode; omega)
    (fun node isNode => by have starts := late node isNode; omega)
    _ (Nat.zero_le _) (by simp) searched
  rw [ReachabilityDataStore.findAncestorIndexOfNode, ok_bind read,
    ReachabilityDataStore.findAncestorIndexOfNodeByIntervalEnd, searched, isLength]
  cases front with
  | nil => rfl
  | cons node front => rfl

end Ordered

/-! ## Asking a set -/

section Query

variable (sound : IndexedStore slack blocks store)
  {this block : DomainHash} (thisIn : this ∈ blocks) (inDag : block ∈ blocks)
  (covers : OrderedSet blocks (shapeOf store).children ((shapeOf store).covering this))

include sound

/-- The interval test answers for tree ancestry between blocks. -/
theorem treeAncestorOf_eq (upperIn : upper ∈ blocks) (inDag : block ∈ blocks) :
    ∃ answer, store.isReachabilityTreeAncestorOf upper block = .ok answer ∧
    (answer = true ↔ (shapeOf store).Below upper block) := by
  rcases treeAncestorOf_of_pos (span_of_block sound upperIn).1 (span_of_block sound inDag).1 with
    ⟨answer, answers⟩
  refine ⟨answer, answers, ?_⟩
  rw [treeAncestorOf_ok answers, below_iff sound upperIn inDag]

include thisIn inDag covers

theorem futureCoveringSetHasAncestorOf_eq : ∃ answer, store.futureCoveringSetHasAncestorOf this
      block = .ok answer ∧ (answer = true ↔ ∃ node ∈ (shapeOf store).covering this,
      (shapeOf store).Below node block) := by
  have readCovering := (reads_of_positive (span_of_block sound thisIn).1).2.2
  rcases interval_pos (span_of_block sound inDag).1 with ⟨_, read⟩
  rcases split_of_search sound covers inDag read with ⟨front, _, split, -, -, last, index⟩
  rw [ReachabilityDataStore.futureCoveringSetHasAncestorOf, ok_bind readCovering, ok_bind index]
  rcases eq_nil_or_concat front with rfl | ⟨init, candidate, rfl⟩
  · refine ⟨false, rfl, ?_⟩
    simp only [Bool.false_eq_true, false_iff, not_exists, not_and]
    intro upper mem below
    cases last upper mem below
  have found : ((shapeOf store).covering this)[init.length]? = some candidate := by simp [split]
  have member : candidate ∈ (shapeOf store).covering this := by simp [split]
  rcases treeAncestorOf_eq sound (covers.inTree candidate member) inDag with ⟨answer, answers, iff⟩
  refine ⟨answer, ?_, ?_⟩
  · simp only [concat_eq_append, append_eq_nil_iff,
      cons_ne_self, and_false, if_false, length_append, length_singleton, Nat.add_sub_cancel, found]
    exact answers
  · rw [iff]
    constructor
    · exact fun below => ⟨candidate, member, below⟩
    · rintro ⟨upper, mem, below⟩
      have isLast := last upper mem below
      simp only [concat_eq_append, List.getLast?_append,
        List.getLast?_singleton, Option.some_or, Option.some.injEq] at isLast
      rw [isLast]
      exact below

end Query

/-! ## Inserting a new leaf -/

/-- What the insertion of a leaf does to the set of one block. -/
structure Inserted (blocks : List DomainHash) (this block : DomainHash)
    (store store' : ReachabilityDataStore) : Prop where
  sameTree : SameTree store store'
  elsewhere : ∀ other, other ≠ this →
    (shapeOf store').covering other = (shapeOf store).covering other
  ordered : OrderedSet blocks (shapeOf store).children ((shapeOf store').covering this)
  onlyNew : ∀ node ∈ (shapeOf store').covering this,
    node ∈ (shapeOf store).covering this ∨ node = block
  kept : ∀ node ∈ (shapeOf store).covering this, node ∈ (shapeOf store').covering this
  covered : ∃ node ∈ (shapeOf store').covering this, Below (shapeOf store).children node block

variable {nodes : List DomainHash}

section Insert

variable (sound : IndexedStore slack blocks store)
  {this block : DomainHash} (inDag : block ∈ blocks) (leaf : (shapeOf store).children block = [])
  (covers : OrderedSet blocks (shapeOf store).children ((shapeOf store).covering this))

variable {node : DomainHash}

include leaf in
theorem below_leaf (below : (shapeOf store).Below block node) : node = block := by
  rcases below.cases_child with same | ⟨_, mem, -⟩
  · exact same.symm
  · rw [leaf] at mem
    cases mem

include sound inDag leaf in
/-- A node that is not above the leaf comes before or after it. -/
theorem precedes_of_span (nodeIn : node ∈ blocks) (notAbove : ¬ (shapeOf store).Below node block) :
    ((spanOf store node).lo < (spanOf store block).hi →
    Precedes (shapeOf store).children node block) ∧
    ((spanOf store block).hi ≤ (spanOf store node).lo →
    Precedes (shapeOf store).children block node) := by
  have nonempty := (span_of_block sound nodeIn).2
  have nonempty' := (span_of_block sound inDag).2
  have either := precedes_total ((sound.nodes node).mpr nodeIn)
    ((sound.nodes block).mpr inDag) notAbove (fun below => notAbove (by
      rw [below_leaf leaf below]
      exact .refl block))
  constructor
  · intro starts
    refine either.resolve_right fun after => ?_
    have apart := apart_of_precedes sound after
    omega
  · intro starts
    refine either.resolve_left fun before => ?_
    have apart := apart_of_precedes sound before
    omega

include sound inDag leaf covers in
/-- The leaf fits between the nodes before and after it. -/
theorem ordered_insert (split : (shapeOf store).covering this = front ++ back)
    (early : ∀ node ∈ front, (spanOf store node).lo < (spanOf store block).hi)
    (late : ∀ node ∈ back, (spanOf store block).hi ≤ (spanOf store node).lo)
    (notCovered : ∀ node ∈ (shapeOf store).covering this, ¬ (shapeOf store).Below node block) :
    OrderedSet blocks (shapeOf store).children (front ++ block :: back) := by
  have members : ∀ node ∈ front ++ back, node ∈ (shapeOf store).covering this := by
    rw [split]
    exact fun node isNode => isNode
  have ordered := covers.ordered
  rw [split, pairwise_append] at ordered
  have before : ∀ node ∈ front, Precedes (shapeOf store).children node block := by
    intro node isNode
    have mem := members node (mem_append_left _ isNode)
    exact (precedes_of_span sound inDag leaf (covers.inTree node mem) (notCovered node mem)).1
      (early node isNode)
  have after : ∀ node ∈ back, Precedes (shapeOf store).children block node := by
    intro node isNode
    have mem := members node (mem_append_right _ isNode)
    exact (precedes_of_span sound inDag leaf (covers.inTree node mem) (notCovered node mem)).2
      (late node isNode)
  constructor
  · rw [pairwise_append, pairwise_cons]
    refine ⟨ordered.1, ⟨after, ordered.2.1⟩, ?_⟩
    intro node isNode other isIn
    rcases mem_cons.mp isIn with rfl | isIn
    · exact before node isNode
    · exact ordered.2.2 node isNode other isIn
  · intro node isNode
    simp only [mem_append, mem_cons] at isNode
    rcases isNode with inFront | rfl | inBack
    · exact covers.inTree node (members node (mem_append_left _ inFront))
    · exact inDag
    · exact covers.inTree node (members node (mem_append_right _ inBack))

/-- Staging a set that holds the leaf and the old nodes. -/
theorem inserted_of_stageData {data : ReachabilityData}
    (isData : data = dataOf store this)
    (ordered : OrderedSet blocks (shapeOf store).children nodes)
    (same : ∀ node, node ∈ nodes ↔
      node ∈ (shapeOf store).covering this ∨ node = block) :
    Inserted blocks this block store
      (store.stageData this { data with futureCoveringSet := nodes }) := by
  have isNodes : (shapeOf (store.stageData this
      { data with futureCoveringSet := nodes })).covering this = nodes := by
    rw [covering_stage, Function.update_self]
  refine ⟨sameTree_stage (by rw [isData]) (by rw [isData]) (by rw [isData]), ?_, ?_, ?_, ?_, ?_⟩
  · intro _ ne
    rw [covering_stage, Function.update_of_ne ne]
  · rw [isNodes]
    exact ordered
  · rw [isNodes]
    exact fun node isNode => (same node).mp isNode
  · rw [isNodes]
    exact fun node isNode => (same node).mpr (.inl isNode)
  · rw [isNodes]
    exact ⟨block, (same block).mpr (.inr rfl), .refl block⟩

include sound inDag leaf covers in
theorem insertToFutureCoveringSet_leaf (isOk : store.insertToFutureCoveringSet this block =
    .ok store') : Inserted blocks this block store store' := by
  rcases ok_of_bind isOk with ⟨interval, read, isOk⟩
  rcases split_of_search sound covers inDag read with
    ⟨front, back, split, early, late, last, search⟩
  rw [ReachabilityDataStore.findAncestorIndexOfNode, ok_bind read] at search
  have isCovering : ((store.data.lookup this).getD emptyReachabilityData).futureCoveringSet =
      (shapeOf store).covering this := rfl
  rw [isCovering, ok_bind search] at isOk
  rcases eq_nil_or_concat front with rfl | ⟨init, candidate, rfl⟩
  · cases isOk
    have notCovered : ∀ node ∈ (shapeOf store).covering this,
        ¬ (shapeOf store).Below node block := by
      intro node mem below
      cases last node mem below
    have ordered := ordered_insert sound inDag leaf covers split early late notCovered
    rw [nil_append] at split ordered
    refine inserted_of_stageData rfl ?_ ?_
    · rw [split]
      exact ordered
    · intro node
      rw [mem_cons, or_comm]
  · have found : ((shapeOf store).covering this)[init.length]? = some candidate := by
      simp [split]
    have member : candidate ∈ (shapeOf store).covering this := by simp [split]
    have candidateIn := covers.inTree candidate member
    simp only [concat_eq_append, append_eq_nil_iff, cons_ne_self, and_false, if_false,
      length_append, length_singleton, Nat.add_sub_cancel, found] at isOk
    rcases ok_of_bind isOk with ⟨free, candidateRead, isOk⟩
    have containsIff : intervalContains free interval = true ↔
        (shapeOf store).Below candidate block := by
      rw [intervalContains_iff, interval_ok candidateRead, interval_ok read,
        below_iff sound candidateIn inDag]
    by_cases contains : intervalContains free interval = true
    · rw [if_pos contains] at isOk
      cases isOk
      exact ⟨.refl store, fun _ _ => rfl, covers, fun _ isNode => .inl isNode,
        fun _ isNode => isNode, candidate, member, containsIff.mp contains⟩
    · have notAbove : ¬ (shapeOf store).Below candidate block :=
        fun below => contains (containsIff.mpr below)
      have notContained : ¬ intervalContains interval free = true := by
        rw [intervalContains_iff, interval_ok candidateRead, interval_ok read,
          ← below_iff sound inDag candidateIn]
        intro below
        rw [below_leaf leaf below] at notAbove
        exact notAbove (.refl block)
      rw [if_neg contains, if_neg notContained] at isOk
      cases isOk
      have notCovered : ∀ node ∈ (shapeOf store).covering this,
          ¬ (shapeOf store).Below node block := by
        intro node mem below
        have isLast := last node mem below
        simp only [concat_eq_append, List.getLast?_append,
          List.getLast?_singleton, Option.some_or, Option.some.injEq] at isLast
        rw [isLast] at notAbove
        exact notAbove below
      have ordered := ordered_insert sound inDag leaf covers split early late notCovered
      have isSplit : ((shapeOf store).covering this).take (init.length + 1) ++
          block :: ((shapeOf store).covering this).drop (init.length + 1) =
          init.concat candidate ++ block :: back := by
        have isLength : init.length + 1 = (init.concat candidate).length := by simp
        rw [split, isLength, take_left, drop_left]
      refine inserted_of_stageData rfl ?_ ?_
      · rw [isSplit]
        exact ordered
      · intro node
        rw [isSplit, split]
        simp only [mem_append, mem_cons]
        tauto

end Insert

/-- What the insertion of a leaf does to the sets of some blocks. -/
structure Registered (blocks nodes : List DomainHash) (block : DomainHash)
    (store store' : ReachabilityDataStore) : Prop where
  sameTree : SameTree store store'
  ordered : ∀ this, OrderedSet blocks (shapeOf store).children ((shapeOf store').covering this)
  onlyNew : ∀ this, ∀ node ∈ (shapeOf store').covering this,
    node ∈ (shapeOf store).covering this ∨ node = block ∧ this ∈ nodes
  kept : ∀ this, ∀ node ∈ (shapeOf store).covering this, node ∈ (shapeOf store').covering this
  covered : ∀ this ∈ nodes, ∃ node ∈ (shapeOf store').covering this,
    Below (shapeOf store).children node block

/-- Inserting into the sets one after another. -/
theorem insertCoverings_leaf {block : DomainHash} (sound : IndexedStore slack blocks store)
    (inDag : block ∈ blocks) (leaf : (shapeOf store).children block = [])
    (coveringsOk : ∀ this, OrderedSet blocks (shapeOf store).children
    ((shapeOf store).covering this)) (isOk : insertToFutureCoveringSets block nodes store =
    .ok store') : Registered blocks nodes block store store' := by
  induction nodes generalizing store with
  | nil =>
    cases isOk
    exact ⟨.refl _, coveringsOk, fun _ _ mem => Or.inl mem, fun _ _ mem => mem, by simp⟩
  | cons here rest ih =>
    rcases ok_of_bind isOk with ⟨next, inserts, isOk⟩
    have put := insertToFutureCoveringSet_leaf sound inDag leaf (coveringsOk here) inserts
    have alike := put.sameTree.children
    have registered : Registered blocks rest block next store' := by
      refine ih (sound.sameTree put.sameTree) ?_ ?_ isOk
      · rw [alike]
        exact leaf
      · intro this
        rw [alike]
        by_cases isCurrent : this = here
        · rw [isCurrent]
          exact put.ordered
        · rw [put.elsewhere this isCurrent]
          exact coveringsOk this
    rcases registered with ⟨sameTree, ordered, onlyNew, kept, covered⟩
    rw [alike] at ordered covered
    refine ⟨put.sameTree.trans sameTree, ordered, ?_, ?_, ?_⟩
    · intro this node mem
      rcases onlyNew this node mem with old | ⟨isBlock, inRest⟩
      · by_cases isCurrent : this = here
        · rw [isCurrent] at old ⊢
          exact (put.onlyNew node old).imp id fun isBlock => ⟨isBlock, .head _⟩
        · rw [put.elsewhere this isCurrent] at old
          exact .inl old
      · exact .inr ⟨isBlock, .tail _ inRest⟩
    · intro this node mem
      apply kept this node
      by_cases isCurrent : this = here
      · rw [isCurrent] at mem ⊢
        exact put.kept node mem
      · rw [put.elsewhere this isCurrent]
        exact mem
    · intro this isNode
      rcases mem_cons.mp isNode with rfl | inRest
      · rcases put.covered with ⟨node, mem, below⟩
        exact ⟨node, kept this node mem, below⟩
      · exact covered this inRest

/-- The blues and the reds are registered one after the other. -/
theorem Registered.append {blocks blues reds : List DomainHash} {block : DomainHash}
    {withBlues : ReachabilityDataStore} (first : Registered blocks blues block store withBlues)
    (second : Registered blocks reds block withBlues store') :
    Registered blocks (blues ++ reds) block store store' := by
  have alike := first.sameTree.children
  rcases second with ⟨sameTree, ordered, onlyNew, kept, covered⟩
  rw [alike] at ordered covered
  refine ⟨first.sameTree.trans sameTree, ordered, ?_, ?_, ?_⟩
  · intro this node mem
    rcases onlyNew this node mem with old | ⟨isBlock, isRed⟩
    · exact (first.onlyNew this node old).imp id fun isNew => ⟨isNew.1, mem_append_left _ isNew.2⟩
    · exact .inr ⟨isBlock, mem_append_right _ isRed⟩
  · intro this node mem
    exact kept this node (first.kept this node mem)
  · intro this isNode
    rcases mem_append.mp isNode with isBlue | isRed
    · rcases first.covered this isBlue with ⟨node, mem, below⟩
      exact ⟨node, kept this node mem, below⟩
    · exact covered this isRed

end Htnd.Reachability.FutureCovering
