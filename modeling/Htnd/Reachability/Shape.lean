import Htnd.Lib.Fallible
import Htnd.Reachability.Manager

/-!
# The shape and the spans of a stored tree

A store is seen as a shape, which is its child lists, parent pointers, future
covering sets and reindex root, and as an assignment of spans to its nodes.
Reindexing changes the spans only.  The lemmas below say what each read returns
and what each staged change does in these terms.
-/

namespace Htnd.Reachability.Shape

open Lib.Fallible Lib.RangeLoops Lib.SpanTree Utxo.Entry
open Reachability.Interval Reachability.Tree Function

/-- What reindexing does not change. -/
@[ext]
structure TreeShape where
  children : DomainHash → List DomainHash
  parent : DomainHash → Option DomainHash
  covering : DomainHash → List DomainHash
  reindexRoot : Option DomainHash

namespace TreeShape

variable (shape : TreeShape)

abbrev Rooted : DomainHash → Prop := Lib.RootedTree.Rooted shape.children shape.parent

abbrev Below : DomainHash → DomainHash → Prop := Lib.RootedTree.Below shape.children

end TreeShape

/-- The data read for a block; without data it is empty. -/
def dataOf (store : ReachabilityDataStore) (blockHash : DomainHash) :
    ReachabilityData :=
  (store.data.lookup blockHash).getD emptyReachabilityData

def shapeOf (store : ReachabilityDataStore) : TreeShape where
  children blockHash := (dataOf store blockHash).children
  parent blockHash := (dataOf store blockHash).parent
  covering blockHash := (dataOf store blockHash).futureCoveringSet
  reindexRoot := store.reachabilityReindexRoot

/-- The span of a stored interval; an absent one is empty. -/
def intervalSpan : Option ReachabilityInterval → Span
  | some interval => interval.span
  | none => ⟨0, 0⟩

def spanOf (store : ReachabilityDataStore) (blockHash : DomainHash) : Span :=
  intervalSpan (dataOf store blockHash).interval

variable {store store' : ReachabilityDataStore} {shape : TreeShape} {blockHash : DomainHash}

/-! ## Reading -/

variable {data : ReachabilityData} {interval : ReachabilityInterval}

theorem reachabilityData_ok (isOk : store.reachabilityData blockHash = .ok data) :
    dataOf store blockHash = data := by
  rw [ReachabilityDataStore.reachabilityData] at isOk
  rw [dataOf]
  cases lookup : store.data.lookup blockHash with
  | none =>
    rw [lookup] at isOk
    cases isOk
  | some stored =>
    rw [lookup] at isOk
    cases isOk
    rfl

theorem children_ok (isShape : shapeOf store = shape) {children : List DomainHash}
    (isOk : store.children blockHash = .ok children) : shape.children blockHash = children := by
  rcases ok_of_bind isOk with ⟨_, read, result⟩
  cases result
  rw [← isShape, ← reachabilityData_ok read]
  rfl

theorem parent_ok (isShape : shapeOf store = shape) {parent : Option DomainHash}
    (isOk : store.parent blockHash = .ok parent) : shape.parent blockHash = parent := by
  rcases ok_of_bind isOk with ⟨_, read, result⟩
  cases result
  rw [← isShape, ← reachabilityData_ok read]
  rfl

theorem interval_ok (isOk : store.interval blockHash = .ok interval) :
    interval.span = spanOf store blockHash := by
  rcases ok_of_bind isOk with ⟨data, read, result⟩
  rw [spanOf, reachabilityData_ok read]
  cases stored : data.interval with
  | none =>
    rw [stored] at result
    cases result
  | some interval =>
    rw [stored] at result
    cases result
    rfl

/-- The range for the children of a node that has room for one. -/
theorem intervalRange_ok (upward : 2 ≤ (spanOf store blockHash).hi)
    (isOk : store.intervalRangeForChildAllocation blockHash = .ok interval) :
    interval.span = ⟨(spanOf store blockHash).lo, (spanOf store blockHash).hi - 1⟩ := by
  rcases ok_of_bind isOk with ⟨whole, read, result⟩
  cases result
  have isSpan := interval_ok read
  rw [← isSpan] at upward ⊢
  change 2 ≤ whole.end_.toNat + 1 at upward
  refine span_eq rfl ?_
  rw [toNat_sub_of_le (by rw [UInt64.toNat_one]; omega), UInt64.toNat_one]
  change _ = whole.end_.toNat + 1 - 1
  omega

theorem reindexRoot_ok (isShape : shapeOf store = shape) {reindexRoot : DomainHash}
    (isOk : store.reindexRoot = .ok reindexRoot) : shape.reindexRoot = some reindexRoot := by
  rw [ReachabilityDataStore.reindexRoot] at isOk
  rw [← isShape, shapeOf]
  cases stored : store.reachabilityReindexRoot with
  | none =>
    rw [stored] at isOk
    cases isOk
  | some root =>
    rw [stored] at isOk
    cases isOk
    rfl

/-! ## Staging -/

theorem dataOf_stageData (store : ReachabilityDataStore) (blockHash : DomainHash)
    (data : ReachabilityData) (other : DomainHash) : dataOf (store.stageData blockHash data) other =
      if other = blockHash then data else dataOf store other := by
  rw [dataOf, ReachabilityDataStore.stageData, insert_ite]
  split_ifs
  · rfl
  · rfl

theorem dataForInsertion_ok (isOk : store.reachabilityDataForInsertion blockHash = .ok data) :
    dataOf store blockHash = data := by
  rw [ReachabilityDataStore.reachabilityDataForInsertion] at isOk
  rw [dataOf]
  split at isOk
  · rename_i found
    rw [found]
    cases isOk
    rfl
  · cases isOk
  · rename_i missing
    rw [missing]
    cases isOk
    rfl

section StageData

variable (store : ReachabilityDataStore) (blockHash : DomainHash) (data : ReachabilityData)

theorem children_stage : (shapeOf (store.stageData blockHash data)).children =
      Function.update (shapeOf store).children blockHash data.children := by
  funext other
  rw [update_apply]
  change (dataOf _ other).children = _
  rw [dataOf_stageData, apply_ite ReachabilityData.children]
  rfl

theorem parent_stage : (shapeOf (store.stageData blockHash data)).parent =
      Function.update (shapeOf store).parent blockHash data.parent := by
  funext other
  rw [update_apply]
  change (dataOf _ other).parent = _
  rw [dataOf_stageData, apply_ite ReachabilityData.parent]
  rfl

theorem covering_stage : (shapeOf (store.stageData blockHash data)).covering =
      Function.update (shapeOf store).covering blockHash
        data.futureCoveringSet := by
  funext other
  rw [update_apply]
  change (dataOf _ other).futureCoveringSet = _
  rw [dataOf_stageData, apply_ite ReachabilityData.futureCoveringSet]
  rfl

theorem span_stage : spanOf (store.stageData blockHash data) =
      Function.update (spanOf store) blockHash (intervalSpan data.interval) := by
  funext other
  rw [update_apply, spanOf, dataOf_stageData,
    apply_ite ReachabilityData.interval, apply_ite intervalSpan]
  rfl

end StageData

/-- Staging an interval keeps the shape and changes one span. -/
theorem stageInterval_ok (isOk : store.stageInterval blockHash interval = .ok store') :
    shapeOf store' = shapeOf store ∧ spanOf store' = Function.update (spanOf store) blockHash
    interval.span := by
  rcases ok_of_bind isOk with ⟨_, read, result⟩
  cases result
  have isData := dataForInsertion_ok read
  refine ⟨?_, span_stage store blockHash _⟩
  ext1
  · rw [children_stage, update_eq_self_iff, ← isData]
    rfl
  · rw [parent_stage, update_eq_self_iff, ← isData]
    rfl
  · rw [covering_stage, update_eq_self_iff, ← isData]
    rfl
  · rfl

/-- The child lists, parent pointers, spans and the reindex root agree. -/
structure SameTree (store store' : ReachabilityDataStore) : Prop where
  children : (shapeOf store').children = (shapeOf store).children
  parent : (shapeOf store').parent = (shapeOf store).parent
  reindexRoot : (shapeOf store').reindexRoot = (shapeOf store).reindexRoot
  span : spanOf store' = spanOf store

theorem SameTree.refl (store : ReachabilityDataStore) : SameTree store store := ⟨rfl, rfl, rfl, rfl⟩

theorem SameTree.trans {store'' : ReachabilityDataStore}
    (first : SameTree store store') (second : SameTree store' store'') : SameTree store store'' :=
  ⟨second.children.trans first.children, second.parent.trans first.parent,
    second.reindexRoot.trans first.reindexRoot, second.span.trans first.span⟩

/-- Staging data with another future covering set only. -/
theorem sameTree_stage (alike : data.children = (dataOf store blockHash).children)
    (sameParent : data.parent = (dataOf store blockHash).parent)
    (sameInterval : data.interval = (dataOf store blockHash).interval) :
    SameTree store (store.stageData blockHash data) := by
  refine ⟨?_, ?_, rfl, ?_⟩
  · rw [children_stage, update_eq_self_iff, alike]
    rfl
  · rw [parent_stage, update_eq_self_iff, sameParent]
    rfl
  · rw [span_stage, update_eq_self_iff, sameInterval]
    rfl

/-- Staging a child appends it to the child list. -/
theorem stageAddChild_ok {node child : DomainHash}
    (isOk : store.stageAddChild node child = .ok store') : (shapeOf store').children =
    Function.update (shapeOf store).children node ((shapeOf store).children node ++ [child]) ∧
    (shapeOf store').parent = (shapeOf store).parent ∧ (shapeOf store').covering =
    (shapeOf store).covering ∧ (shapeOf store').reindexRoot = (shapeOf store).reindexRoot ∧
    spanOf store' = spanOf store := by
  rcases ok_of_bind isOk with ⟨_, read, result⟩
  cases result
  have isData := dataForInsertion_ok read
  refine ⟨?_, ?_, ?_, rfl, ?_⟩
  · rw [children_stage, ← isData]
    rfl
  · rw [parent_stage, update_eq_self_iff, ← isData]
    rfl
  · rw [covering_stage, update_eq_self_iff, ← isData]
    rfl
  · rw [span_stage, update_eq_self_iff, ← isData]
    rfl

/-- Staging a parent sets the parent pointer. -/
theorem stageParent_ok {node parent : DomainHash}
    (isOk : store.stageParent node parent = .ok store') : (shapeOf store').children =
    (shapeOf store).children ∧ (shapeOf store').parent = Function.update (shapeOf store).parent node
    (some parent) ∧ (shapeOf store').covering = (shapeOf store).covering ∧
    (shapeOf store').reindexRoot = (shapeOf store).reindexRoot ∧ spanOf store' = spanOf store := by
  rcases ok_of_bind isOk with ⟨_, read, result⟩
  cases result
  have isData := dataForInsertion_ok read
  refine ⟨?_, parent_stage store node _, ?_, rfl, ?_⟩
  · rw [children_stage, update_eq_self_iff, ← isData]
    rfl
  · rw [covering_stage, update_eq_self_iff, ← isData]
    rfl
  · rw [span_stage, update_eq_self_iff, ← isData]
    rfl

/-- Inserting into a future covering set leaves the tree as it is. -/
theorem insertToFutureCoveringSet_ok {node futureNode : DomainHash}
    (isOk : store.insertToFutureCoveringSet node futureNode = .ok store') :
    SameTree store store' := by
  rcases ok_of_bind isOk with ⟨_, -, rest⟩
  rcases ok_of_bind rest with ⟨found, -, rest⟩
  cases found with
  | none =>
    cases rest
    exact sameTree_stage rfl rfl rfl
  | some ancestorIndex =>
    dsimp only at rest
    split at rest
    · cases rest
    rcases ok_of_bind rest with ⟨_, -, rest⟩
    split_ifs at rest
    · cases rest
      exact .refl store
    · cases rest
      exact sameTree_stage rfl rfl rfl
    · cases rest
      exact sameTree_stage rfl rfl rfl

end Htnd.Reachability.Shape
