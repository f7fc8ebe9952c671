import Htnd.Reachability.Shape

/-!
# Counting subtrees

`countSubtrees` fills a cache of subtree sizes.  Its queue holds nodes whose
parents have been expanded; a leaf, or a node whose size is cached, is reported
to its parent, and a parent all of whose children have been reported gets its
size and is reported in turn.  The invariant below says which children every
expanded node still waits for.  When the queue is empty no expanded node can
wait any more, so the size of the starting node is cached.
-/

namespace Htnd.Reachability.Subtrees

open Lib.Fallible Lib.RangeLoops Lib.RootedTree Utxo.Entry Reachability.Interval
open Reachability.Tree Reindex Shape List

/-- The cached sizes are right, and the cache holds whole subtrees. -/
structure SizesCached (children : DomainHash → List DomainHash)
    (sizes : FiniteMap DomainHash UInt64) : Prop where
  size_eq : ∀ node count, sizes.lookup node = some count → count.toNat = size children node
  closed : ∀ node, (sizes.lookup node).isSome → ∀ child ∈ children node, (sizes.lookup child).isSome

variable {children : DomainHash → List DomainHash} {parent : DomainHash → Option DomainHash}
  {genesis node : DomainHash} {sizes : FiniteMap DomainHash UInt64}

theorem sizesCached_empty : SizesCached children ∅ where
  size_eq node count lookup := by
    cases lookup
  closed node cached := by
    cases cached

theorem SizesCached.cachedSize_eq (cached : SizesCached children sizes)
    (isCached : (sizes.lookup node).isSome) :
    (cachedSize sizes node).toNat = size children node := by
  rcases Option.isSome_iff_exists.mp isCached with ⟨count, lookup⟩
  rw [cachedSize, lookup]
  exact cached.size_eq node count lookup

theorem SizesCached.map_cachedSize (cached : SizesCached children sizes) {nodes : List DomainHash}
    (areCached : ∀ node ∈ nodes, (sizes.lookup node).isSome) :
    (nodes.map (cachedSize sizes)).map UInt64.toNat = nodes.map (size children) := by
  rw [map_map]
  exact map_congr_left fun node mem => cached.cachedSize_eq (areCached node mem)

variable {count : UInt64}

/-- A right size whose children are cached may be cached. -/
theorem SizesCached.insert (cached : SizesCached children sizes)
    (isSize : count.toNat = size children node) (childrenCached : ∀ child ∈ children node,
    (sizes.lookup child).isSome) : SizesCached children (sizes.insert node count) where
  size_eq other value lookup := by
    rw [insert_ite] at lookup
    split_ifs at lookup with same
    · cases lookup
      rw [same]
      exact isSize
    · exact cached.size_eq other value lookup
  closed other isCached child mem := by
    rw [insert_ite] at isCached ⊢
    split_ifs with childSame
    · rfl
    · split_ifs at isCached with same
      · rw [same] at mem
        exact childrenCached child mem
      · exact cached.closed other isCached child mem

/-! ## The invariant of the walk -/

/--
What the walk knows.  Children of expanded nodes are in the queue, are reported
to their parents, are finished and about to be, or are expanded and wait.
-/
structure Counted (children : DomainHash → List DomainHash) (node : DomainHash)
    (queue expanded reported finished exempt : List DomainHash) (counting : Counting) : Prop where
  cached : SizesCached children counting.subTreeSizesCache
  distinct : queue.Nodup
  queued : ∀ next ∈ queue, Below children node next ∧ next ∉ expanded ∧
    next ∉ reported ∧
    (next ≠ node → ∃ above ∈ expanded, next ∈ children above)
  opened : ∀ next ∈ expanded, Below children node next ∧
    (next ≠ node → ∃ above ∈ expanded, next ∈ children above)
  count : ∀ above, counting.childrenCount above = ((children above).filter (· ∈ reported)).length
  reportedCached : ∀ next ∈ reported, (counting.subTreeSizesCache.lookup next).isSome ∧
    ∃ above ∈ expanded, next ∈ children above
  covered : ∀ above ∈ expanded, ∀ next ∈ children above,
    next ∈ queue ∨ next ∈ reported ∨ next ∈ finished ∨
      (next ∈ expanded ∧ counting.subTreeSizesCache.lookup next = none)
  complete : ∀ above ∈ expanded, (counting.subTreeSizesCache.lookup above).isSome →
    ∀ next ∈ children above, next ∈ reported
  waits : ∀ above ∈ expanded, above ∉ exempt → counting.subTreeSizesCache.lookup above = none →
    ∃ next ∈ children above, next ∉ reported
  started : node ∈ queue ∨ node ∈ expanded ∨ (counting.subTreeSizesCache.lookup node).isSome

/-- A node that is finished but not yet reported to its parent. -/
structure Finished (children : DomainHash → List DomainHash)
    (node : DomainHash) (queue expanded reported : List DomainHash)
    (counting : Counting) (current : DomainHash) : Prop where
  isCached : (counting.subTreeSizesCache.lookup current).isSome
  below : Below children node current
  notQueued : current ∉ queue
  notReported : current ∉ reported
  parentExpanded : current ≠ node → ∃ above ∈ expanded, current ∈ children above

variable {queue expanded reported : List DomainHash} {counting : Counting}
  {current above : DomainHash}

theorem childrenCount_countChild (counting : Counting) (blockHash other : DomainHash) :
    (counting.countChild blockHash).childrenCount other =
      if other = blockHash then counting.childrenCount blockHash + 1
      else counting.childrenCount other := by
  rw [Counting.childrenCount, Counting.countChild, insert_ite]
  split_ifs <;> rfl

theorem length_filter_report (nodup : (children above).Nodup) (mem : current ∈ children above)
    (silent : current ∉ reported) : ((children above).filter (· ∈ current :: reported)).length =
    ((children above).filter (· ∈ reported)).length + 1 := by
  rcases append_of_mem mem with ⟨before, after, split⟩
  rw [split] at nodup ⊢
  have apart : ∀ other ∈ before ++ after, other ≠ current := by
    intro other isIn
    rintro rfl
    rw [nodup_middle, nodup_cons] at nodup
    exact nodup.1 isIn
  have same : ∀ some : List DomainHash, (∀ other ∈ some, other ≠ current) →
      some.filter (· ∈ current :: reported) = some.filter (· ∈ reported) := by
    intro some notCurrent
    refine filter_congr fun other isIn => ?_
    rw [decide_eq_decide, mem_cons]
    exact ⟨fun either => either.resolve_left (notCurrent other isIn), .inr⟩
  rw [filter_append, filter_append, filter_cons_of_pos
      (by simp), filter_cons_of_neg (by simpa using silent), same before fun other isIn =>
      apart other (mem_append_left _ isIn), same after fun other isIn =>
      apart other (mem_append_right _ isIn), length_append, length_append]
  exact (add_assoc _ _ _).symm

theorem Counted.report (tree : Rooted children parent genesis)
    (counted : Counted children node queue expanded reported [current] [] counting)
    (finished : Finished children node queue expanded reported counting current)
    (isOpen : above ∈ expanded) (mem : current ∈ children above) :
    Counted children node queue expanded (current :: reported) [] [above]
    (counting.countChild above) where
  cached := counted.cached
  distinct := counted.distinct
  queued next isQueued := by
    rcases counted.queued next isQueued with ⟨below, notExpanded, silent, parentExpanded⟩
    refine ⟨below, notExpanded, ?_, parentExpanded⟩
    rw [mem_cons, not_or]
    refine ⟨?_, silent⟩
    rintro rfl
    exact finished.notQueued isQueued
  opened := counted.opened
  count other := by
    rw [childrenCount_countChild]
    split_ifs with same
    · rw [same, counted.count above, length_filter_report
        (tree.nodup above) mem finished.notReported]
    rw [counted.count other]
    refine congrArg List.length (filter_congr fun next isNext => ?_)
    rw [decide_eq_decide, mem_cons]
    refine ⟨.inr, fun either => either.resolve_left ?_⟩
    rintro rfl
    exact same (tree.parent_unique isNext mem)
  reportedCached next isReported := by
    rcases mem_cons.mp isReported with rfl | old
    · exact ⟨finished.isCached, above, isOpen, mem⟩
    · exact counted.reportedCached next old
  covered other isIn next isNext := by
    rcases counted.covered other isIn next isNext with
      inQueue | old | done | waiting
    · exact .inl inQueue
    · exact .inr (.inl (.tail current old))
    · rw [mem_singleton.mp done]
      exact .inr (.inl (.head _))
    · exact .inr (.inr (.inr waiting))
  complete other isIn isCached next isNext :=
    mem_cons_of_mem current (counted.complete other isIn isCached next isNext)
  waits other isIn notExempt notCached := by
    rcases counted.waits other isIn not_mem_nil notCached with ⟨next, isNext, silent⟩
    refine ⟨next, isNext, ?_⟩
    rw [mem_cons, not_or]
    refine ⟨?_, silent⟩
    rintro rfl
    exact notExempt (mem_singleton.mpr (tree.parent_unique isNext mem))
  started := counted.started

theorem lookup_setSize (counting : Counting) (blockHash other : DomainHash) (count : UInt64) :
    (counting.setSize blockHash count).subTreeSizesCache.lookup other =
      if other = blockHash then some count
      else counting.subTreeSizesCache.lookup other :=
  insert_ite counting.subTreeSizesCache blockHash other count

theorem isSome_setSize {other : DomainHash} (count : UInt64)
    (isCached : (counting.subTreeSizesCache.lookup other).isSome) :
    ((counting.setSize current count).subTreeSizesCache.lookup other).isSome := by
  rw [lookup_setSize]
  split_ifs
  · rfl
  · exact isCached

theorem Counted.setSize (counted : Counted children node queue expanded reported []
    [above] counting) (allReported : ∀ next ∈ children above, next ∈ reported)
    (isSize : count.toNat = size children above) : Counted children node queue expanded reported
    [above] [] (counting.setSize above count) where
  cached := counted.cached.insert isSize fun child mem =>
    (counted.reportedCached child (allReported child mem)).1
  distinct := counted.distinct
  queued := counted.queued
  opened := counted.opened
  count := counted.count
  reportedCached next isReported := ⟨isSome_setSize count
    (counted.reportedCached next isReported).1, (counted.reportedCached next isReported).2⟩
  covered other isIn next isNext := by
    rw [lookup_setSize]
    split_ifs with same
    · exact .inr (.inr (.inl (mem_singleton.mpr same)))
    rcases counted.covered other isIn next isNext with
      inQueue | old | done | waiting
    · exact .inl inQueue
    · exact .inr (.inl old)
    · cases done
    · exact .inr (.inr (.inr waiting))
  complete other isIn isCached next isNext := by
    rw [lookup_setSize] at isCached
    split_ifs at isCached with same
    · rw [same] at isNext
      exact allReported next isNext
    · exact counted.complete other isIn isCached next isNext
  waits other isIn _ notCached := by
    rw [lookup_setSize] at notCached
    split_ifs at notCached with same
    exact counted.waits other isIn (fun mem => same (mem_singleton.mp mem)) notCached
  started := by
    rcases counted.started with inQueue | isOpen | isCached
    · exact .inl inQueue
    · exact .inr (.inl isOpen)
    · exact .inr (.inr (isSome_setSize count isCached))

section

variable (counted : Counted children node (current :: queue) expanded reported [] [] counting)
  (isCached : (counting.subTreeSizesCache.lookup current).isSome)

include counted isCached

theorem Counted.dequeue : Counted children node queue expanded reported [current] [] counting :=
  { counted with
    distinct := (nodup_cons.mp counted.distinct).2
    queued := fun next isQueued => counted.queued next (.tail current isQueued)
    covered := by
      intro other isIn next isNext
      rcases counted.covered other isIn next isNext with
        inQueue | old | done | waiting
      · rcases mem_cons.mp inQueue with same | inQueue
        · exact .inr (.inr (.inl (mem_singleton.mpr same)))
        · exact .inl inQueue
      · exact .inr (.inl old)
      · cases done
      · exact .inr (.inr (.inr waiting))
    started := by
      rcases counted.started with inQueue | isOpen | isCached
      · rcases mem_cons.mp inQueue with rfl | inQueue
        · exact .inr (.inr isCached)
        · exact .inl inQueue
      · exact .inr (.inl isOpen)
      · exact .inr (.inr isCached) }

theorem Counted.finished : Finished children node queue expanded reported counting current := by
  rcases counted.queued current (.head _) with ⟨below, -, silent, parentExpanded⟩
  exact ⟨isCached, below, (nodup_cons.mp counted.distinct).1, silent, parentExpanded⟩

end

section

variable (tree : Rooted children parent genesis)
  (counted : Counted children node (current :: queue) expanded reported [] [] counting)

include tree counted

theorem Counted.cacheLeaf (isLeaf : children current = []) :
    Counted children node (current :: queue) expanded reported [] []
    (counting.setSize current 1) := by
  have notExpanded := (counted.queued current (.head _)).2.1
  have isSize : (1 : UInt64).toNat = size children current := by
    rw [tree.size_eq current, isLeaf]
    rfl
  have differs : ∀ other ∈ expanded, other ≠ current := by
    rintro other isIn rfl
    exact notExpanded isIn
  refine ⟨counted.cached.insert isSize ?_, counted.distinct, counted.queued,
    counted.opened, counted.count, ?_, ?_, ?_, ?_, ?_⟩
  · intro _ mem
    rw [isLeaf] at mem
    cases mem
  · intro next isReported
    exact ⟨isSome_setSize 1 (counted.reportedCached next isReported).1,
      (counted.reportedCached next isReported).2⟩
  · intro other isIn next isNext
    rcases counted.covered other isIn next isNext with
      inQueue | old | done | waiting
    · exact .inl inQueue
    · exact .inr (.inl old)
    · cases done
    · rw [lookup_setSize, if_neg (differs next waiting.1)]
      exact .inr (.inr (.inr waiting))
  · intro other isIn isCached
    rw [lookup_setSize, if_neg (differs other isIn)] at isCached
    exact counted.complete other isIn isCached
  · intro other isIn notExempt notCached
    rw [lookup_setSize, if_neg (differs other isIn)] at notCached
    exact counted.waits other isIn notExempt notCached
  · rcases counted.started with inQueue | isOpen | isCached
    · exact .inl inQueue
    · exact .inr (.inl isOpen)
    · exact .inr (.inr (isSome_setSize 1 isCached))

theorem Counted.expand (inner : children current ≠ [])
    (notCached : counting.subTreeSizesCache.lookup current = none) :
    Counted children node (queue ++ children current) (current :: expanded) reported []
    [] counting := by
  rcases counted.queued current (.head _) with ⟨below, notExpanded, _, parentExpanded⟩
  have distinct := nodup_cons.mp counted.distinct
  have newChild : ∀ child ∈ children current,
      child ≠ node ∧ ∀ above ∈ expanded, child ∉ children above := by
    intro child mem
    constructor
    · rintro rfl
      exact tree.not_below mem below
    · intro above isAbove isChild
      rw [tree.parent_unique isChild mem] at isAbove
      exact notExpanded isAbove
  have childNotReported : ∀ child ∈ children current, child ∉ reported := by
    intro child mem isReported
    rcases (counted.reportedCached child isReported).2 with ⟨above, isAbove, isChild⟩
    exact (newChild child mem).2 above isAbove isChild
  have childNotExpanded : ∀ child ∈ children current, child ∉ current :: expanded := by
    intro child mem isOpen
    rcases mem_cons.mp isOpen with same | isOpen
    · exact tree.child_ne mem same
    · rcases (counted.opened child isOpen).2 (newChild child mem).1 with ⟨above, isAbove, isChild⟩
      exact (newChild child mem).2 above isAbove isChild
  have childNotQueued : ∀ child ∈ children current, child ∉ queue := by
    intro child mem isQueued
    rcases (counted.queued child (.tail current isQueued)).2.2.2 (newChild child mem).1 with
      ⟨above, isAbove, isChild⟩
    exact (newChild child mem).2 above isAbove isChild
  refine ⟨counted.cached, ?_, ?_, ?_, counted.count, ?_, ?_, ?_, ?_, ?_⟩
  · rw [nodup_append]
    refine ⟨distinct.2, tree.nodup current, ?_⟩
    rintro first isFirst _ second rfl
    exact childNotQueued first second isFirst
  · intro next isNext
    rcases mem_append.mp isNext with isQueued | isChild
    · rcases counted.queued next (.tail current isQueued)
        with ⟨nextBelow, nextNotExpanded, nextNotReported, nextParent⟩
      refine ⟨nextBelow, ?_, nextNotReported, fun ne => ?_⟩
      · rw [mem_cons, not_or]
        refine ⟨?_, nextNotExpanded⟩
        rintro rfl
        exact distinct.1 isQueued
      · rcases nextParent ne with ⟨above, isAbove, mem⟩
        exact ⟨above, .tail current isAbove, mem⟩
    · exact ⟨below.trans (.of_child isChild), childNotExpanded next isChild,
        childNotReported next isChild, fun _ => ⟨current, .head _, isChild⟩⟩
  · intro next isNext
    have parentOf : (next ≠ node → ∃ above ∈ expanded,
        next ∈ children above) → next ≠ node →
        ∃ above ∈ current :: expanded, next ∈ children above := by
      intro old ne
      rcases old ne with ⟨above, isAbove, mem⟩
      exact ⟨above, .tail current isAbove, mem⟩
    rcases mem_cons.mp isNext with rfl | isOpen
    · exact ⟨below, parentOf parentExpanded⟩
    · rcases counted.opened next isOpen with ⟨nextBelow, nextParent⟩
      exact ⟨nextBelow, parentOf nextParent⟩
  · intro next isReported
    rcases counted.reportedCached next isReported with ⟨isCached, above, isAbove, mem⟩
    exact ⟨isCached, above, .tail current isAbove, mem⟩
  · intro other isIn next isNext
    rcases mem_cons.mp isIn with rfl | isOpen
    · exact .inl (mem_append_right queue isNext)
    rcases counted.covered other isOpen next isNext with
      inQueue | old | done | waiting
    · rcases mem_cons.mp inQueue with rfl | inQueue
      · exact .inr (.inr (.inr ⟨.head _, notCached⟩))
      · exact .inl (mem_append_left _ inQueue)
    · exact .inr (.inl old)
    · cases done
    · exact .inr (.inr (.inr ⟨.tail current waiting.1, waiting.2⟩))
  · intro other isIn isCached
    rcases mem_cons.mp isIn with rfl | isOpen
    · rw [notCached] at isCached
      cases isCached
    · exact counted.complete other isOpen isCached
  · intro other isIn notExempt otherNotCached
    rcases mem_cons.mp isIn with rfl | isOpen
    · rcases exists_mem_of_ne_nil _ inner with ⟨child, mem⟩
      exact ⟨child, mem, childNotReported child mem⟩
    · exact counted.waits other isOpen notExempt otherNotCached
  · rcases counted.started with inQueue | isOpen | isCached
    · rcases mem_cons.mp inQueue with rfl | inQueue
      · exact .inr (.inl (.head _))
      · exact .inl (mem_append_left _ inQueue)
    · exact .inr (.inl (.tail current isOpen))
    · exact .inr (.inr isCached)

end

/-- With an empty queue no expanded node waits. -/
theorem Counted.cached_of_empty (tree : Rooted children parent genesis)
    (nodeIn : Below children genesis node) (counted : Counted children node [] expanded reported []
    [] counting) : (counting.subTreeSizesCache.lookup node).isSome := by
  have noneWaits : ∀ other, Below children genesis other → other ∈ expanded →
      (counting.subTreeSizesCache.lookup other).isSome := by
    intro other inTree
    refine tree.induction_from_leaves (motive := fun other => other ∈ expanded →
      (counting.subTreeSizesCache.lookup other).isSome) ?_ inTree
    intro other _ ih isOpen
    by_contra notCached
    rw [Option.not_isSome_iff_eq_none] at notCached
    rcases counted.waits other isOpen not_mem_nil notCached with ⟨next, isNext, silent⟩
    rcases counted.covered other isOpen next isNext with
      inQueue | old | done | waiting
    · cases inQueue
    · exact silent old
    · cases done
    · have isCached := ih next isNext waiting.1
      rw [waiting.2] at isCached
      cases isCached
  rcases counted.started with inQueue | isOpen | isCached
  · cases inQueue
  · exact noneWaits node nodeIn isOpen
  · exact isCached

/-! ## The loops -/

section Loops

variable {store : ReachabilityDataStore} {shape : TreeShape} (tree : shape.Rooted genesis)
  (bound : size shape.children genesis < 2 ^ 64) (isShape : shapeOf store = shape)

include tree

include bound

/-- The sum of cached children, and one, is the size of the parent. -/
theorem toNat_sum_cachedSize (cached : SizesCached shape.children sizes)
    (inTree : shape.Below genesis above) (areCached : ∀ next ∈ shape.children above,
    (sizes.lookup next).isSome) : (((shape.children above).map (cachedSize sizes)).sum + 1).toNat =
    size shape.children above := by
  have smaller := tree.size_le_below (.refl genesis) inTree
  have sizeIs := tree.size_eq above
  have mapped := cached.map_cachedSize areCached
  have sumIs : ((shape.children above).map (cachedSize sizes)).sum.toNat =
      ((shape.children above).map (size shape.children)).sum := by
    rw [toNat_sum, mapped]
    rw [mapped]
    omega
  rw [toNat_add_of_lt, sumIs, UInt64.toNat_one, sizeIs]
  rw [UInt64.toNat_one]
  omega

include isShape

variable {result : Counting}

/-- Pushing a finished node up reports it and what it completes. -/
theorem pushUp_counted (nodeIn : shape.Below genesis node) (rounds : Nat)
    (counted : Counted shape.children node queue expanded reported [current] [] counting)
    (finished : Finished shape.children node queue expanded reported counting current)
    (isOk : pushUp store node rounds current counting = .ok result) :
    ∃ reported', Counted shape.children node queue expanded reported' [] []
      result := by
  induction rounds generalizing current reported counting with
  | zero => cases isOk
  | succ rounds ih =>
    rw [pushUp] at isOk
    split_ifs at isOk with isStart
    · cases isOk
      rw [isStart] at counted
      refine ⟨reported, { counted with covered := ?_ }⟩
      intro other isIn next isNext
      rcases counted.covered other isIn next isNext with
        inQueue | old | done | waiting
      · exact .inl inQueue
      · exact .inr (.inl old)
      · rw [mem_singleton.mp done] at isNext
        exact absurd (counted.opened other isIn).1 (tree.not_below isNext)
      · exact .inr (.inr (.inr waiting))
    rcases finished.parentExpanded isStart with ⟨above, isOpen, mem⟩
    rcases ok_of_bind isOk with ⟨_, read, rest⟩
    have link := parent_ok isShape read
    rw [tree.mem_children.mp mem] at link
    rw [← link] at rest
    rcases ok_of_bind rest with ⟨_, reads, rest⟩
    have areChildren := children_ok isShape reads
    rw [← areChildren] at rest
    have next := counted.report tree finished isOpen mem
    have notCached : counting.subTreeSizesCache.lookup above = none := by
      rw [← Option.not_isSome_iff_eq_none]
      intro isCached
      exact finished.notReported (counted.complete above isOpen isCached current mem)
    split_ifs at rest with waits
    · cases rest
      refine ⟨current :: reported, { next with waits := ?_ }⟩
      intro other isIn _ notCached
      by_cases same : other = above
      swap
      · exact next.waits other isIn (fun mem => same (mem_singleton.mp mem)) notCached
      rw [same]
      rw [next.count above] at waits
      by_contra noneWaits
      refine waits (congrArg List.length (filter_eq_self.mpr ?_))
      intro other isIn
      rw [decide_eq_true_eq]
      by_contra silent
      exact noneWaits ⟨other, isIn, silent⟩
    · have allReported : ∀ next ∈ shape.children above,
          next ∈ current :: reported := by
        rw [not_not, next.count above] at waits
        intro other isIn
        have whole := filter_eq_self.mp (filter_sublist.eq_of_length waits) other isIn
        exact of_decide_eq_true whole
      have belowNode := (counted.opened above isOpen).1
      have isSize := toNat_sum_cachedSize tree bound next.cached (nodeIn.trans belowNode)
        fun other isIn => (next.reportedCached other (allReported other isIn)).1
      refine ih (next.setSize allReported isSize) ?_ rest
      refine ⟨?_, belowNode, ?_, ?_, (counted.opened above isOpen).2⟩
      · rw [lookup_setSize, if_pos rfl]
        rfl
      · intro inQueue
        exact (counted.queued above inQueue).2.1 isOpen
      · rw [mem_cons, not_or]
        refine ⟨(tree.child_ne mem).symm, fun old => ?_⟩
        have isCached := (counted.reportedCached above old).1
        rw [notCached] at isCached
        cases isCached

/-- When the queue loop ends, the size of the starting node is cached. -/
theorem countQueue_cached (nodeIn : shape.Below genesis node) (pushRounds rounds : Nat)
    (counted : Counted shape.children node queue expanded reported [] [] counting)
    (isOk : countQueue store node pushRounds rounds queue counting = .ok result) :
    SizesCached shape.children result.subTreeSizesCache ∧
    (result.subTreeSizesCache.lookup node).isSome := by
  fun_induction countQueue store node pushRounds rounds queue counting
    generalizing expanded reported with
  | case1 =>
    cases isOk
    exact ⟨counted.cached, counted.cached_of_empty tree nodeIn⟩
  | case2 => cases isOk
  | case3 rounds current queue counting ih ihExpanded =>
    rcases ok_of_bind isOk with ⟨_, reads, rest⟩
    have areChildren := children_ok isShape reads
    rw [← areChildren] at rest
    split_ifs at rest with isLeaf isCached
    · rcases ok_of_bind rest with ⟨pushed, pushes, rest⟩
      have leaf := counted.cacheLeaf tree isLeaf
      have leafCached : ((counting.setSize current 1).subTreeSizesCache.lookup current).isSome := by
        rw [lookup_setSize, if_pos rfl]
        rfl
      rcases pushUp_counted tree bound isShape nodeIn pushRounds
        (leaf.dequeue leafCached) (leaf.finished leafCached) pushes with ⟨reported', counted'⟩
      exact ih pushed counted' rest
    · rcases ok_of_bind rest with ⟨pushed, pushes, rest⟩
      rcases pushUp_counted tree bound isShape nodeIn pushRounds
        (counted.dequeue isCached) (counted.finished isCached) pushes with ⟨reported', counted'⟩
      exact ih pushed counted' rest
    · rw [Option.not_isSome_iff_eq_none] at isCached
      exact ihExpanded _ (counted.expand tree isLeaf isCached) rest

end Loops

theorem counted_start (cached : SizesCached children sizes) :
    Counted children node [node] [] [] [] [] ⟨∅, sizes⟩ where
  cached := cached
  distinct := nodup_singleton node
  queued next isQueued := by
    rw [mem_singleton.mp isQueued]
    exact ⟨.refl node, not_mem_nil, not_mem_nil, fun ne => absurd rfl ne⟩
  opened := nofun
  count above := by
    rw [filter_eq_nil_iff.mpr]
    · rfl
    · intro _ _ isReported
      exact absurd (of_decide_eq_true isReported) not_mem_nil
  reportedCached := nofun
  covered := nofun
  complete := nofun
  waits := nofun
  started := .inl (.head _)

variable {rc : ReindexContext} {rounds : Nat}

/-- `countSubtrees` caches the size of the node and changes nothing else. -/
theorem countSubtrees_ok {shape : TreeShape} {rc' : ReindexContext} (tree : shape.Rooted genesis)
    (bound : size shape.children genesis < 2 ^ 64) (isShape : shapeOf rc.store = shape)
    (nodeIn : shape.Below genesis node) (cached : SizesCached shape.children rc.subTreeSizesCache)
    (isOk : countSubtrees rounds rc node = .ok rc') : rc'.store = rc.store ∧
    SizesCached shape.children rc'.subTreeSizesCache ∧
    (rc'.subTreeSizesCache.lookup node).isSome := by
  rw [countSubtrees] at isOk
  split_ifs at isOk with isCached
  · cases isOk
    exact ⟨rfl, cached, isCached⟩
  · rcases ok_of_bind isOk with ⟨_, counts, result⟩
    cases result
    exact ⟨rfl, countQueue_cached tree bound isShape nodeIn rounds rounds
      (counted_start cached) counts⟩

/-! ## Counting ends -/

/-- The store has the data of a tree that is not too large to be counted. -/
structure HoldsTree (store : ReachabilityDataStore) (genesis : DomainHash) : Prop where
  tree : (shapeOf store).Rooted genesis
  stored : ∀ node, (shapeOf store).Below genesis node → (store.data.lookup node).isSome
  bound : size (shapeOf store).children genesis < 2 ^ 64

variable {store : ReachabilityDataStore} {current : DomainHash} (holds : HoldsTree store genesis)

theorem reads_of_stored (stored : (store.data.lookup node).isSome) : store.children node =
    .ok ((shapeOf store).children node) ∧ store.parent node = .ok ((shapeOf store).parent node) ∧
    store.futureCoveringSet node = .ok ((shapeOf store).covering node) := by
  rcases Option.isSome_iff_exists.mp stored with ⟨data, lookup⟩
  simp only [ReachabilityDataStore.children, ReachabilityDataStore.parent,
    ReachabilityDataStore.futureCoveringSet,
    ReachabilityDataStore.reachabilityData, shapeOf, dataOf, lookup]
  exact ⟨rfl, rfl, rfl⟩

include holds

/-- The subtrees grow on the way up. -/
theorem pushUp_total (counting : Counting) (inTree : (shapeOf store).Below genesis current)
    (enough : size (shapeOf store).children genesis < rounds + size (shapeOf store).children
    current) : ∃ result, pushUp store node rounds current counting = .ok result := by
  induction rounds generalizing current counting with
  | zero =>
    have atMost := holds.tree.size_le_below (.refl genesis) inTree
    omega
  | succ rounds ih =>
    rw [pushUp]
    split_ifs
    · exact ⟨_, rfl⟩
    rw [ok_bind (reads_of_stored (holds.stored _ inTree)).2.1]
    cases link : (shapeOf store).parent current with
    | none => exact ⟨_, rfl⟩
    | some above =>
      have mem := holds.tree.mem_children.mpr link
      have aboveIn := holds.tree.rooted mem
      dsimp only
      rw [ok_bind (reads_of_stored (holds.stored _ aboveIn)).1]
      split_ifs
      · exact ⟨_, rfl⟩
      · have larger := holds.tree.size_child_lt mem
        exact ih _ aboveIn (by omega)

/-- The queued subtrees lose a node with every round. -/
theorem countQueue_total {pushRounds : Nat} {queue : List DomainHash} (counting : Counting)
    (pushes : size (shapeOf store).children genesis ≤ pushRounds)
    (inTree : ∀ next ∈ queue, (shapeOf store).Below genesis next)
    (enough : (queue.map (size (shapeOf store).children)).sum ≤ rounds) :
    ∃ result, countQueue store node pushRounds rounds queue counting = .ok result := by
  induction rounds generalizing queue counting with
  | zero =>
    cases queue with
    | nil => exact ⟨counting, rfl⟩
    | cons current queue =>
      have pos := holds.tree.size_pos (inTree current (.head _))
      rw [map_cons, sum_cons] at enough
      omega
  | succ rounds ih =>
    cases queue with
    | nil => exact ⟨counting, rfl⟩
    | cons current queue =>
      have currentIn := inTree current (.head _)
      have restIn := fun next isNext => inTree next (.tail current isNext)
      have pos := holds.tree.size_pos currentIn
      have pushed : ∀ counting, ∃ result, pushUp store node pushRounds current counting =
          .ok result := fun counting => pushUp_total holds counting currentIn (by omega)
      rw [map_cons, sum_cons] at enough
      rw [countQueue, ok_bind (reads_of_stored (holds.stored _ currentIn)).1]
      split_ifs
      · rcases pushed (counting.setSize current 1) with ⟨next, isNext⟩
        rw [ok_bind isNext]
        exact ih next restIn (by omega)
      · rcases pushed counting with ⟨next, isNext⟩
        rw [ok_bind isNext]
        exact ih next restIn (by omega)
      · refine ih counting ?_ ?_
        · intro next isNext
          rcases mem_append.mp isNext with isQueued | isChild
          · exact restIn next isQueued
          · exact currentIn.trans (.of_child isChild)
        · rw [map_append, sum_append]
          rw [holds.tree.size_eq current] at enough
          omega

theorem countSubtrees_total
    (enough : size (shapeOf store).children genesis ≤ rounds) (isStore : rc.store = store)
    (cached : SizesCached (shapeOf store).children rc.subTreeSizesCache)
    (inTree : (shapeOf store).Below genesis node) : ∃ rc', countSubtrees rounds rc node = .ok rc' ∧
    rc'.store = store ∧ SizesCached (shapeOf store).children rc'.subTreeSizesCache ∧
    (rc'.subTreeSizesCache.lookup node).isSome := by
  have total : ∃ rc', countSubtrees rounds rc node = .ok rc' := by
    rw [countSubtrees]
    split_ifs
    · exact ⟨rc, rfl⟩
    · have atMost := holds.tree.size_le_below (.refl genesis) inTree
      have ends : ∃ result, countQueue rc.store node rounds rounds [node]
          ⟨∅, rc.subTreeSizesCache⟩ = .ok result := by
        rw [isStore]
        refine countQueue_total holds _ enough (forall_mem_singleton.mpr inTree) ?_
        simpa using atMost.trans enough
      rcases ends with ⟨counting, counts⟩
      rw [ok_bind counts]
      exact ⟨_, rfl⟩
  rcases total with ⟨rc', counts⟩
  rcases countSubtrees_ok holds.tree holds.bound (congrArg shapeOf isStore)
    inTree cached counts with ⟨same, facts⟩
  exact ⟨rc', counts, same.trans isStore, facts⟩

end Htnd.Reachability.Subtrees
