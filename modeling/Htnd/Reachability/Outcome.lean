import Htnd.Reachability.Shape

/-!
# Outcomes of the reachability manager

A call returns a result that meets a condition, or fails for a reason other
than a lack of space: no interval was too small to be split, no chain ended at
a root without room.  The reads, the walks and the counting never lack space.
-/

namespace Htnd.Reachability.Outcome

open Utxo.Entry Reachability.Interval Reachability.Tree Reindex Manager
  ReachabilityDataStore

/-- The errors that report a lack of space. -/
def LacksSpace : ReachabilityError → Prop
  | .splitsEmptyInterval => True
  | .sizesNotEqualToInterval => True
  | .sizesExceedInterval => True
  | .missingTreeParent => True
  | .reindexRootOutOfCapacity _ => True
  | _ => False

/-- The result meets the condition; an error reports no lack of space. -/
def Meets {α : Type} (post : α → Prop) : Except ReachabilityError α → Prop
  | .ok value => post value
  | .error err => ¬ LacksSpace err

/-- No lack of space is reported. -/
abbrev Harmless {α : Type} (result : Except ReachabilityError α) : Prop :=
  Meets (fun _ => True) result

section Rules

variable {α β : Type} {result : Except ReachabilityError α}
  {next : α → Except ReachabilityError β} {middle : α → Prop} {post : β → Prop}

theorem Meets.of_ok (meets : Meets middle result) {value : α}
    (isOk : result = .ok value) : middle value := by
  rw [isOk] at meets
  exact meets

theorem Meets.of_error (meets : Meets middle result)
    {err : ReachabilityError} (fails : result = .error err) : ¬ LacksSpace err := by
  rw [fails] at meets
  exact meets

theorem Meets.imp {other : α → Prop} (meets : Meets middle result)
    (implies : ∀ value, middle value → other value) : Meets other result := by
  cases result with
  | ok value => exact implies value meets
  | error err => exact meets

theorem Meets.bind (meets : Meets middle result)
    (rest : ∀ value, middle value → Meets post (next value)) : Meets post (result >>= next) := by
  cases result with
  | ok value => exact rest value meets
  | error err => exact meets

/-- What was read is known afterwards. -/
theorem Harmless.read (harmless : Harmless result) (rest : ∀ value, result = .ok value →
    Meets post (next value)) : Meets post (result >>= next) := by
  cases result with
  | ok value => exact rest value rfl
  | error err => exact harmless

theorem Meets.of_read (harmless : Harmless result)
    (rest : ∀ value, result = .ok value → middle value) : Meets middle result := by
  cases result with
  | ok value => exact rest value rfl
  | error err => exact harmless

theorem Harmless.bind (harmless : Harmless result)
    (rest : ∀ value, Harmless (next value)) : Harmless (result >>= next) :=
  Harmless.read harmless fun value _ => rest value

end Rules

/-! ## Reads and staging -/

section Store

variable (store : ReachabilityDataStore) (node other : DomainHash)

theorem harmless_data : Harmless (store.reachabilityData node) := by
  rw [reachabilityData]
  split
  · trivial
  · exact not_false

theorem harmless_span : Harmless (store.interval node) := by
  refine (harmless_data store node).bind fun _ => ?_
  split
  · trivial
  · exact not_false

theorem harmless_children : Harmless (store.children node) :=
  (harmless_data store node).bind fun _ => trivial

theorem harmless_parent : Harmless (store.parent node) :=
  (harmless_data store node).bind fun _ => trivial

theorem harmless_reindexRoot : Harmless store.reindexRoot := by
  rw [reindexRoot]
  split
  · trivial
  · exact not_false

theorem harmless_dataForInsertion : Harmless (store.reachabilityDataForInsertion node) := by
  rw [reachabilityDataForInsertion]
  split
  · trivial
  · exact not_false
  · trivial

theorem harmless_stage (interval : ReachabilityInterval) :
    Harmless (store.stageInterval node interval) :=
  (harmless_dataForInsertion store node).bind fun _ => trivial

theorem harmless_stageAddChild : Harmless (store.stageAddChild node other) :=
  (harmless_dataForInsertion store node).bind fun _ => trivial

theorem harmless_stageParent : Harmless (store.stageParent node other) :=
  (harmless_dataForInsertion store node).bind fun _ => trivial

theorem harmless_intervalRange : Harmless (store.intervalRangeForChildAllocation node) :=
  (harmless_span store node).bind fun _ => trivial

theorem harmless_remainingBefore : Harmless (store.remainingIntervalBefore node) := by
  refine (harmless_intervalRange store node).bind fun _ => ?_
  refine (harmless_children store node).bind fun children => ?_
  cases children with
  | nil => trivial
  | cons child children => exact (harmless_span store child).bind fun _ => trivial

theorem harmless_remainingAfter : Harmless (store.remainingIntervalAfter node) := by
  refine (harmless_intervalRange store node).bind fun _ => ?_
  refine (harmless_children store node).bind fun children => ?_
  cases children.getLast? with
  | none => trivial
  | some child => exact (harmless_span store child).bind fun _ => trivial

theorem harmless_treeAncestorOf : Harmless (store.isReachabilityTreeAncestorOf node other) :=
  (harmless_span store node).bind fun _ => (harmless_span store other).bind fun _ => trivial

theorem harmless_isStrictAncestorOf : Harmless (store.isStrictAncestorOf node other) := by
  rw [isStrictAncestorOf]
  split_ifs
  · trivial
  · exact harmless_treeAncestorOf store node other

theorem harmless_findNext : Harmless (store.findNextAncestor node other) := by
  rw [findNextAncestor]
  split_ifs
  · exact not_false
  refine (harmless_children store other).bind fun _ => ?_
  dsimp only
  split
  · trivial
  · exact not_false

theorem harmless_findCommonAncestor (rounds : Nat) :
    Harmless (store.findCommonAncestor rounds node other) := by
  induction rounds generalizing node with
  | zero => exact not_false
  | succ rounds ih =>
    refine (harmless_treeAncestorOf store node other).bind fun isAncestor => ?_
    cases isAncestor with
    | true => trivial
    | false =>
      refine (harmless_parent store node).bind fun parent => ?_
      cases parent with
      | none => exact not_false
      | some parent => exact ih parent

theorem harmless_splitAtPivot (nodes : List DomainHash) :
    Harmless (ReachabilityDataStore.splitAtPivot node nodes) := by
  induction nodes with
  | nil => exact not_false
  | cons child nodes ih =>
    rw [splitAtPivot]
    split_ifs
    · trivial
    · exact ih.bind fun _ => trivial

theorem harmless_splitChildren : Harmless (store.splitChildren node other) :=
  (harmless_children store node).bind fun children => harmless_splitAtPivot other children

theorem harmless_searchByIntervalEnd (tns : List DomainHash) (end_ : UInt64)
    (rounds low high : Nat) : Harmless (store.searchByIntervalEnd tns end_ rounds low high) := by
  fun_induction store.searchByIntervalEnd tns end_ rounds low high with
  | case1 | case3 => exact not_false
  | case2 | case5 => trivial
  | case4 rounds low high narrower middle middleNode found ihBelow ihAbove =>
    refine (harmless_span store _).bind fun _ => ?_
    split_ifs
    · exact ihBelow
    · exact ihAbove

theorem harmless_insertToFutureCoveringSet :
    Harmless (store.insertToFutureCoveringSet node other) := by
  refine (harmless_span store other).bind fun _ => ?_
  refine Harmless.bind ?_ fun found => ?_
  · refine (harmless_searchByIntervalEnd store _ _ _ _ _).bind fun index => ?_
    cases index with
    | zero => trivial
    | succ index => trivial
  · cases found with
    | none => trivial
    | some index =>
      dsimp only
      split
      · exact not_false
      refine (harmless_span store _).bind fun _ => ?_
      split_ifs
      · trivial
      · trivial
      · trivial

end Store

/-! ## Counting and staging in lists -/

variable (store : ReachabilityDataStore)

theorem harmless_pushUp (node : DomainHash) (rounds : Nat) (here : DomainHash)
    (counting : Counting) : Harmless (pushUp store node rounds here counting) := by
  induction rounds generalizing here counting with
  | zero => exact not_false
  | succ rounds ih =>
    rw [pushUp]
    split_ifs
    · trivial
    refine (harmless_parent store here).bind fun parent => ?_
    cases parent with
    | none => trivial
    | some parent =>
      refine (harmless_children store parent).bind fun _ => ?_
      split_ifs
      · trivial
      · exact ih parent _

theorem harmless_countQueue (node : DomainHash) (pushRounds rounds : Nat) (queue : List DomainHash)
    (counting : Counting) : Harmless (countQueue store node pushRounds rounds queue counting) := by
  fun_induction countQueue store node pushRounds rounds queue counting with
  | case1 => trivial
  | case2 => exact not_false
  | case3 rounds here queue counting ih expanded =>
    refine (harmless_children store here).bind fun children => ?_
    split_ifs
    · exact (harmless_pushUp store node pushRounds here _).bind ih
    · exact (harmless_pushUp store node pushRounds here _).bind ih
    · exact expanded children

theorem harmless_countSubtrees (rounds : Nat) (rc : ReindexContext)
    (node : DomainHash) : Harmless (countSubtrees rounds rc node) := by
  rw [countSubtrees]
  split_ifs
  · trivial
  · exact (harmless_countQueue rc.store node rounds rounds [node] _).bind fun _ => trivial

theorem harmless_stageIntervals (children : List DomainHash) (spans : List ReachabilityInterval) :
    Harmless (stageIntervals store children spans) := by
  induction children generalizing store spans with
  | nil => trivial
  | cons child children ih =>
    cases spans with
    | nil => exact not_false
    | cons interval spans =>
      exact (harmless_stage store child interval).bind fun store => ih store spans

theorem harmless_insertCoverings (blockHash : DomainHash)
    (nodes : List DomainHash) (store : ReachabilityDataStore) :
    Harmless (insertToFutureCoveringSets blockHash nodes store) := by
  induction nodes generalizing store with
  | nil => trivial
  | cons node nodes ih =>
    exact (harmless_insertToFutureCoveringSet store node blockHash).bind fun store => ih store

/-! ## Looking for the next reindex root -/

section Search

variable (manager : ReachabilityManager)
  (dataStore : GHOSTDAGDataStore) (store : ReachabilityDataStore)

theorem harmless_descendToWindow (tip : DomainHash)
    (tipBlueScore : UInt64) (steps : Nat) (root : DomainHash) :
    Harmless (descendToWindow manager dataStore store tip tipBlueScore steps root) := by
  induction steps generalizing root with
  | zero => exact not_false
  | succ steps ih =>
    refine (harmless_findNext store tip root).bind fun chosen => ?_
    split
    · split_ifs
      · trivial
      · exact ih chosen
    · split_ifs
      · exact not_false
      · trivial
      · exact ih chosen

theorem harmless_findNextReindexRoot (rounds : Nat) (root tip : DomainHash) :
    Harmless (findNextReindexRoot manager rounds dataStore store root tip) := by
  rw [findNextReindexRoot]
  split
  · exact not_false
  refine (harmless_treeAncestorOf store root tip).bind fun isAncestor => ?_
  cases isAncestor with
  | true => exact (harmless_descendToWindow manager dataStore store _ _ _ _).bind fun _ => trivial
  | false =>
    simp only [Bool.false_eq_true, if_false]
    split
    · exact not_false
    split_ifs
    · trivial
    · exact (harmless_findCommonAncestor store _ _ _).bind fun _ =>
        (harmless_descendToWindow manager dataStore store _ _ _ _).bind fun _ => trivial

end Search

end Htnd.Reachability.Outcome
