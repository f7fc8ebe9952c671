import Mathlib.Data.List.DropRight
import Mathlib.Data.List.Sort

/-!
# The cached past median time of virtual

`pastmediantimemanager.go` keeps virtual's past median time until it is told to
drop it.  Insertions and `ResolveVirtual` ask for it while they stage a new
virtual.  Of what else they do, a call here says what it stages and how far it
gets.
-/

namespace Htnd.Consensus.PastMedianTime

open List

inductive TimeError
  | unreadable
  | emptyWindow
deriving DecidableEq

/-- What is read of a block through a staging area. -/
structure View where
  /-- The timestamps of the blocks of its window. -/
  window : Except TimeError (List Int64)
  genesisTime : Except TimeError Int64

structure PastMedianTimeManager where
  virtualPastMedianTimeCache : Int64

def windowMedianTimestamp (timestamps : List Int64) : Except TimeError Int64 :=
  match (timestamps.insertionSort (· ≤ ·))[timestamps.length / 2]? with
  | some median => .ok median
  | none => .error .emptyWindow

/-- `PastMedianTime`; no time is kept as 0. -/
def pastMedianTime (pmtm : PastMedianTimeManager) (isVirtual : Bool)
    (view : View) : Except TimeError Int64 × PastMedianTimeManager :=
  if isVirtual ∧ pmtm.virtualPastMedianTimeCache ≠ 0 then
    (.ok pmtm.virtualPastMedianTimeCache, pmtm)
  else
    match view.window with
    | .error error => (.error error, pmtm)
    | .ok [] => (view.genesisTime, pmtm)
    | .ok window =>
      match windowMedianTimestamp window with
      | .error error => (.error error, pmtm)
      | .ok time => (.ok time, if isVirtual then ⟨time⟩ else pmtm)

def invalidateVirtualPastMedianTimeCache : PastMedianTimeManager := ⟨0⟩

/-- The manager and virtual as committed. -/
structure Node where
  pastMedianTimeManager : PastMedianTimeManager
  virtual : View

/-- How far a call gets with a new virtual. -/
structure Update where
  staged : View
  /-- `applyMergeSetBlocks` asks for the time of the staged virtual. -/
  asks : Bool
  /-- The staged virtual is committed. -/
  commits : Bool

def Node.updateVirtual (node : Node) (update : Update) : Node where
  pastMedianTimeManager :=
    if update.asks then
      (pastMedianTime node.pastMedianTimeManager true update.staged).2
    else node.pastMedianTimeManager
  virtual := if update.commits then update.staged else node.virtual

/-- A query is one for virtual with an empty staging area. -/
inductive Call
  | validateAndInsertBlock (update : Update) (completes : Bool)
  | resolveVirtual (update : Update)
  | query

/-- The insertion gets to its end, where the cached time is dropped. -/
def Call.succeeds : Call → Bool
  | validateAndInsertBlock update completes => update.commits && completes
  | _ => false

def Node.query (node : Node) : Except TimeError Int64 × PastMedianTimeManager :=
  pastMedianTime node.pastMedianTimeManager true node.virtual

def Node.step (node : Node) (call : Call) : Node :=
  match call with
  | .validateAndInsertBlock update _ =>
    let updated := node.updateVirtual update
    if call.succeeds then
      { updated with
        pastMedianTimeManager := invalidateVirtualPastMedianTimeCache }
    else updated
  | .resolveVirtual update => node.updateVirtual update
  | .query => { node with pastMedianTimeManager := node.query.2 }

/-- The call stops before virtual's new past is asked for. -/
def Call.LeavesVirtual : Call → Prop
  | validateAndInsertBlock update _ | resolveVirtual update =>
    update.asks = false ∧ update.commits = false
  | query => True

/-- What a manager without the cached time returns. -/
def Node.uncached (node : Node) : Except TimeError Int64 := (pastMedianTime ⟨0⟩ true node.virtual).1

/-- A second query answers as the first. -/
theorem query_again (node : Node) : (node.step .query).query.1 = node.query.1 := by
  rcases node with ⟨⟨time⟩, ⟨window, genesisTime⟩⟩
  by_cases isKept : time = 0
  swap
  · simp [Node.step, Node.query, pastMedianTime, isKept]
  rcases window with error | ⟨- | ⟨first, rest⟩⟩
  · simp [Node.step, Node.query, pastMedianTime, isKept]
  · simp [Node.step, Node.query, pastMedianTime, isKept]
  · cases isMedian : windowMedianTimestamp (first :: rest) with
    | error => simp [Node.step, Node.query, pastMedianTime, isKept, isMedian]
    | ok median =>
      by_cases isZero : median = 0
      · simp [Node.step, Node.query, pastMedianTime, isKept, isMedian, isZero]
      · simp [Node.step, Node.query, pastMedianTime, isKept, isMedian, isZero]

theorem step_of_leavesVirtual {node : Node} {call : Call}
    (isRight : node.query.1 = node.uncached) (leaves : call.LeavesVirtual)
    (goesOn : call.succeeds = false) : (node.step call).query.1 = (node.step call).uncached := by
  cases call with
  | query => exact (query_again node).trans isRight
  | validateAndInsertBlock update | resolveVirtual update =>
    rw [Node.step]
    rcases update with ⟨staged, _, _⟩
    rcases leaves with ⟨⟨⟩, ⟨⟩⟩
    exact isRight

/--
Whatever was called before, a query is right if every call since the last
insertion that succeeded stopped before it asked for the time of a new virtual.
-/
theorem query_right (virtual : View) (calls : List Call)
    (leaves : ∀ call ∈ calls.rtakeWhile (!·.succeeds), call.LeavesVirtual) :
    (calls.foldl Node.step ⟨⟨0⟩, virtual⟩).query.1 =
      (calls.foldl Node.step ⟨⟨0⟩, virtual⟩).uncached := by
  induction calls using reverseRecOn with
  | nil => rfl
  | append_singleton calls call ih =>
    rw [foldl_concat]
    rw [rtakeWhile_concat] at leaves
    cases succeeds : call.succeeds with
    | false =>
      rw [succeeds] at leaves
      have earlier := ih fun call isIn => leaves call (mem_append_left _ isIn)
      exact step_of_leavesVirtual earlier (leaves call mem_concat_self) succeeds
    | true =>
      cases call with
      | validateAndInsertBlock =>
        rw [Node.step, succeeds]
        rfl
      | resolveVirtual | query => cases succeeds

/-- A new virtual, a query and an update that stops early. -/
theorem query_right_inserted : ([.query,
      .validateAndInsertBlock ⟨⟨.ok [7], .ok 1⟩, true, true⟩ true, .query,
      .resolveVirtual ⟨⟨.ok [9], .ok 1⟩, false, false⟩].foldl Node.step
        ⟨⟨0⟩, ⟨.ok [5], .ok 1⟩⟩).query.1 = .ok 7 := by
  refine query_right ⟨.ok [5], .ok 1⟩ [.query, .validateAndInsertBlock _ true, .query,
    .resolveVirtual _] (forall_mem_cons.mpr ⟨?_, forall_mem_singleton.mpr ?_⟩)
  · trivial
  · exact ⟨rfl, rfl⟩

/--
After a query, a virtual that `ResolveVirtual` commits is answered with the old
time; an insertion that fails leaves the time of a virtual that never was.
-/
theorem query_outdated :
    let resolved := [Call.query, .resolveVirtual ⟨⟨.ok [7], .ok 1⟩, true, true⟩].foldl
      Node.step ⟨⟨0⟩, ⟨.ok [5], .ok 1⟩⟩
    let failed := Node.step ⟨⟨0⟩, ⟨.ok [5], .ok 1⟩⟩
      (.validateAndInsertBlock ⟨⟨.ok [7], .ok 1⟩, true, false⟩ false)
    (resolved.query.1 = .ok 5 ∧ resolved.uncached = .ok 7) ∧
      failed.query.1 = .ok 7 ∧ failed.uncached = .ok 5 := by
  decide

end Htnd.Consensus.PastMedianTime
