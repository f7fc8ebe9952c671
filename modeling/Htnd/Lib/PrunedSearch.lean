import Mathlib

/-!
# Pruned search

A queue search along links that goes no further at pruned nodes.  The found
nodes are those already taken from the queue followed by the queue itself;
every link of a taken node leads to a found or to a pruned node, unless it is
still pending.  When the queue is empty, exactly the nodes that are reached
without passing a pruned node have been found.
-/

namespace Htnd.Lib.PrunedSearch

open Relation List

universe u

variable {α : Type u} {next : α → List α} {Pruned : α → Prop}
  {starts done queue : List α} {pending : List (α × α)} {node target : α}

/-- One link that does not lead to a pruned node. -/
def Link (next : α → List α) (Pruned : α → Prop) (node target : α) : Prop :=
  target ∈ next node ∧ ¬ Pruned target

/-- The state of a search from the given nodes. -/
structure Explored (next : α → List α) (Pruned : α → Prop)
    (starts done queue : List α) (pending : List (α × α)) : Prop where
  nodup : (done ++ queue).Nodup
  hasStarts : ∀ start ∈ starts, start ∈ done ++ queue
  reached : ∀ node ∈ done ++ queue, ∃ start ∈ starts, ReflTransGen (Link next Pruned) start node
  closed : ∀ node ∈ done, ∀ target ∈ next node,
    Pruned target ∨ target ∈ done ++ queue ∨ (node, target) ∈ pending

namespace Explored

theorem initial (distinct : starts.Nodup) : Explored next Pruned starts [] starts [] where
  nodup := distinct
  hasStarts _ isStart := isStart
  reached start isStart := ⟨start, isStart, .refl⟩
  closed := nofun

/-- The first node of the queue is taken; its links are pending. -/
theorem take (seen : Explored next Pruned starts done (node :: queue) []) :
    Explored next Pruned starts (done ++ [node]) queue
    ((next node).map fun target => (node, target)) := by
  rcases seen with ⟨nodup, hasStarts, meets, closed⟩
  rw [append_cons] at nodup hasStarts meets
  refine ⟨nodup, hasStarts, meets, ?_⟩
  intro other isDone target isTarget
  rcases mem_append.mp isDone with old | isNode
  · rcases closed other old target isTarget with pruned | found | waits
    · exact .inl pruned
    · rw [append_cons] at found
      exact .inr (.inl found)
    · cases waits
  · rw [mem_singleton] at isNode
    subst isNode
    exact .inr (.inr (mem_map_of_mem isTarget))

/-- A pending link to a pruned or a found node is settled. -/
theorem skip (seen : Explored next Pruned starts done queue ((node, target) :: pending))
    (known : Pruned target ∨ target ∈ done ++ queue) :
    Explored next Pruned starts done queue pending := by
  refine ⟨seen.nodup, seen.hasStarts, seen.reached, ?_⟩
  intro other isDone link isLink
  rcases seen.closed other isDone link isLink with
    pruned | found | waits
  · exact .inl pruned
  · exact .inr (.inl found)
  · rcases mem_cons.mp waits with same | waits
    · cases same
      exact known.imp id Or.inl
    · exact .inr (.inr waits)

/-- A pending link to a new node puts it into the queue. -/
theorem enqueue (seen : Explored next Pruned starts done queue ((node, target) :: pending))
    (isDone : node ∈ done) (isTarget : target ∈ next node)
    (notPruned : ¬ Pruned target) (new : target ∉ done ++ queue) :
    Explored next Pruned starts done (queue ++ [target]) pending := by
  have grows : ∀ other, other ∈ done ++ queue → other ∈ done ++ (queue ++ [target]) := by
    intro other found
    rw [← append_assoc]
    exact mem_append_left _ found
  have isFound : target ∈ done ++ (queue ++ [target]) := by simp
  refine ⟨?_, ?_, ?_, ?_⟩
  · rw [← append_assoc, nodup_append]
    refine ⟨seen.nodup, nodup_singleton target, ?_⟩
    intro _ first _ second
    rw [mem_singleton.mp second]
    rintro rfl
    exact new first
  · exact fun start isStart => grows start (seen.hasStarts start isStart)
  · intro other found
    rw [← append_assoc] at found
    rcases mem_append.mp found with old | isNew
    · exact seen.reached other old
    · rw [mem_singleton.mp isNew]
      rcases seen.reached node (mem_append_left _ isDone) with ⟨start, isStart, path⟩
      exact ⟨start, isStart, path.tail ⟨isTarget, notPruned⟩⟩
  · intro other otherDone link isLink
    rcases seen.closed other otherDone link isLink with
      pruned | found | waits
    · exact .inl pruned
    · exact .inr (.inl (grows link found))
    · rcases mem_cons.mp waits with same | waits
      · cases same
        exact .inr (.inl isFound)
      · exact .inr (.inr waits)

/-- With an empty queue the reached nodes have been found. -/
theorem mem_iff (seen : Explored next Pruned starts done [] []) : target ∈ done ↔ ∃ start ∈ starts,
    ReflTransGen (Link next Pruned) start target := by
  have all : done ++ [] = done := append_nil done
  constructor
  · intro found
    exact seen.reached target (mem_append_left _ found)
  · rintro ⟨start, isStart, path⟩
    induction path with
    | refl =>
      rw [← all]
      exact seen.hasStarts start isStart
    | @tail middle target _ link ih =>
      rcases seen.closed middle ih target link.1 with
        pruned | found | waits
      · exact absurd pruned link.2
      · rw [all] at found
        exact found
      · cases waits

end Explored

end Htnd.Lib.PrunedSearch
