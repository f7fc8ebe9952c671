import Mathlib

/-!
# Forests of pointers

Every node holds at most one pointer, to its next node.  A route follows the
pointers from a node to one that holds none.  Two changes of such a forest
keep all routes: pointing one node somewhere else, if the new target has a
route that avoids the node; and making another node the end of all routes.
-/

namespace Htnd.Lib.PointerForest

universe u

variable {α : Type u}

/--
The route from a node ends at another one, and every node on it, the two ends
included, is good.
-/
inductive Route (next : α → Option α) (Good : α → Prop) : α → α → Prop where
  | root {node : α} (good : Good node) (last : next node = none) : Route next Good node node
  | step {node target root : α} (good : Good node) (points : next node = some target)
      (rest : Route next Good target root) : Route next Good node root

namespace Route

variable {next next' : α → Option α} {Good Good' : α → Prop} {node root root' : α}

section

variable (route : Route next Good node root)

include route

theorem good : Good node := by
  cases route with
  | root good last => exact good
  | step good points rest => exact good

theorem last : next root = none := by
  induction route with
  | root good last => exact last
  | step good points rest ih => exact ih

theorem root_good : Good root := by
  induction route with
  | root good last => exact good
  | step good points rest ih => exact ih

/-- A route stays one where good nodes are good and point as before. -/
theorem transfer (imp : ∀ node, Good node → Good' node)
    (same : ∀ node, Good node → next' node = next node) : Route next' Good' node root := by
  induction route with
  | root good last => exact .root (imp _ good) ((same _ good).trans last)
  | step good points rest ih => exact .step (imp _ good) ((same _ good).trans points) ih

theorem root_unique (other : Route next Good' node root') : root = root' := by
  induction route with
  | root good last =>
    cases other with
    | root _ _ => rfl
    | step _ points _ =>
      rw [last] at points
      cases points
  | step good points rest ih =>
    cases other with
    | root _ last =>
      rw [last] at points
      cases points
    | step _ otherPoints otherRest =>
      rw [points] at otherPoints
      cases otherPoints
      exact ih otherRest

/-- From a node with a route no pointer path leads back to it. -/
theorem acyclic : ¬ Relation.TransGen (fun first second => next first = some second) node node := by
  have accessible : Acc (fun second first => next first = some second)
      node := by
    induction route with
    | root good last =>
      refine Acc.intro _ fun other points => ?_
      rw [last] at points
      cases points
    | step good points rest ih =>
      refine Acc.intro _ fun other otherPoints => ?_
      rw [points] at otherPoints
      cases otherPoints
      exact ih
  have noCycle : ∀ node, Acc (Relation.TransGen fun second first =>
      next first = some second) node →
      ¬ Relation.TransGen (fun second first => next first = some second) node node := by
    intro node accessible
    induction accessible with
    | intro node _ ih => exact fun cycle => ih node cycle cycle
  intro cycle
  exact noCycle node accessible.transGen (Relation.transGen_swap.mp cycle)

/--
Pointing one node at a target whose route avoids the node keeps every route.
-/
theorem repoint {changed target : α} (goodChanged : Good changed)
    (targetRoute : Route next (fun node => Good node ∧ node ≠ changed) target root)
    (atChanged : next' changed = some target)
    (apart : ∀ node, node ≠ changed → next' node = next node) : Route next' Good node root := by
  have targetRoute' : Route next' Good target root := targetRoute.transfer (fun _ both => both.1)
    (fun node both => apart node both.2)
  have changedRoute : Route next' Good changed root := .step goodChanged atChanged targetRoute'
  induction route with
  | @root node good last =>
    by_cases same : node = changed
    · subst same
      exact changedRoute
    · exact .root good ((apart node same).trans last)
  | @step node next root good points rest ih =>
    by_cases same : node = changed
    · rw [same]
      exact changedRoute
    · exact .step good ((apart node same).trans points) (ih targetRoute targetRoute' changedRoute)

/--
Pointing the end of all routes at another node, and letting that node point
nowhere, makes it the end of all routes.
-/
theorem reroot {newRoot : α} (goodNew : Good newRoot) (atNew : next' newRoot = none)
    (atOld : root ≠ newRoot → next' root = some newRoot)
    (apart : ∀ node, node ≠ newRoot → node ≠ root →
      next' node = next node) : Route next' Good node newRoot := by
  have newRoute : Route next' Good newRoot newRoot := .root goodNew atNew
  induction route with
  | @root node good last =>
    by_cases same : node = newRoot
    · rw [same]
      exact newRoute
    · exact .step good (atOld same) newRoute
  | @step node next root good points rest ih =>
    by_cases same : node = newRoot
    · rw [same]
      exact newRoute
    have notRoot : node ≠ root := by
      rintro rfl
      rw [rest.last] at points
      cases points
    exact .step good ((apart node same notRoot).trans points) (ih atOld apart)

end

end Route

end Htnd.Lib.PointerForest
