import Mathlib

/-!
# Graphs grown in topological order

A finite acyclic graph is given as the list of its nodes with their parents,
the newest node first; every parent was added before.  The past of a node is
what is reached by following parents.  Adding a node changes no past but gives
the new node the union of its parents and their pasts.
-/

namespace Htnd.Lib.BlockDag

open Relation List

universe u

variable {α : Type u}

/-- The nodes with their parents, the newest first. -/
abbrev Dag (α : Type u) := List (α × List α)

def nodes (dag : Dag α) : List α := dag.map Prod.fst

def IsParent (dag : Dag α) (node parent : α) : Prop :=
  ∃ parents, (node, parents) ∈ dag ∧ parent ∈ parents

/-- The ancestor is reached from the node by one or more parent links. -/
def InPast (dag : Dag α) (ancestor node : α) : Prop := TransGen (IsParent dag) node ancestor

/-- Every node is new, and its parents were added before it. -/
inductive Topological : Dag α → Prop where
  | nil : Topological []
  | cons {dag : Dag α} {node : α} {parents : List α}
      (earlier : Topological dag) (fresh : node ∉ nodes dag)
      (known : ∀ parent ∈ parents, parent ∈ nodes dag) : Topological ((node, parents) :: dag)

variable {dag : Dag α} {node other ancestor parent : α} {parents : List α}

@[simp]
theorem mem_nodes : other ∈ nodes ((node, parents) :: dag) ↔ other = node ∨ other ∈ nodes dag := by
  simp [nodes]

theorem IsParent.node_mem (link : IsParent dag node parent) : node ∈ nodes dag := by
  rcases link with ⟨_, mem, -⟩
  exact mem_map_of_mem mem

theorem InPast.node_mem (past : InPast dag ancestor node) : node ∈ nodes dag := by
  rcases TransGen.head'_iff.mp past with ⟨_, link, -⟩
  exact link.node_mem

theorem InPast.trans (first : InPast dag ancestor other)
    (second : InPast dag other node) : InPast dag ancestor node :=
  TransGen.trans second first

theorem InPast.of_parent (link : IsParent dag node parent) : InPast dag parent node :=
  TransGen.single link

namespace Topological

theorem parent_mem (topo : Topological dag)
    (link : IsParent dag node parent) : parent ∈ nodes dag := by
  induction topo with
  | nil =>
    rcases link with ⟨parents, mem, -⟩
    cases mem
  | @cons dag newest parents earlier fresh known ih =>
    rcases link with ⟨others, mem, isParent⟩
    rcases mem_cons.mp mem with same | old
    · cases same
      exact mem_nodes.mpr (.inr (known parent isParent))
    · exact mem_nodes.mpr (.inr (ih ⟨others, old, isParent⟩))

/-- The parents of a node are given once. -/
theorem mem_parents_iff (topo : Topological dag) (entry : (node, parents) ∈ dag) :
    parent ∈ parents ↔ IsParent dag node parent := by
  induction topo with
  | nil => cases entry
  | @cons dag newest others earlier fresh known ih =>
    constructor
    · exact fun link => ⟨parents, entry, link⟩
    · rintro ⟨listed, mem, link⟩
      rcases mem_cons.mp entry with same | old
      · cases same
        rcases mem_cons.mp mem with same | mem
        · cases same
          exact link
        · exact absurd (IsParent.node_mem ⟨listed, mem, link⟩) fresh
      · rcases mem_cons.mp mem with same | mem
        · cases same
          exact absurd (mem_map_of_mem old) fresh
        · exact (ih old).mpr ⟨listed, mem, link⟩

theorem ancestor_mem (topo : Topological dag)
    (past : InPast dag ancestor node) : ancestor ∈ nodes dag := by
  rcases TransGen.tail'_iff.mp past with ⟨_, -, link⟩
  exact topo.parent_mem link

section Cons

variable (earlier : Topological dag) (fresh : node ∉ nodes dag)
  (known : ∀ parent ∈ parents, parent ∈ nodes dag)

include fresh

theorem isParent_new : IsParent ((node, parents) :: dag) node parent ↔ parent ∈ parents := by
  constructor
  · rintro ⟨others, mem, link⟩
    rcases mem_cons.mp mem with same | old
    · cases same
      exact link
    · exact absurd (IsParent.node_mem ⟨others, old, link⟩) fresh
  · exact fun link => ⟨parents, .head _, link⟩

theorem isParent_old (isOld : other ∈ nodes dag) : IsParent ((node, parents) :: dag) other parent ↔
    IsParent dag other parent := by
  constructor
  · rintro ⟨others, mem, link⟩
    rcases mem_cons.mp mem with same | old
    · cases same
      exact absurd isOld fresh
    · exact ⟨others, old, link⟩
  · rintro ⟨others, mem, link⟩
    exact ⟨others, .tail _ mem, link⟩

include earlier

/-- The past of an old node does not change. -/
theorem inPast_old (isOld : other ∈ nodes dag) : InPast ((node, parents) :: dag) ancestor other ↔
    InPast dag ancestor other := by
  constructor
  · intro past
    induction past using TransGen.head_induction_on with
    | single link => exact .of_parent ((isParent_old fresh isOld).mp link)
    | head link rest ih =>
      have oldLink := (isParent_old fresh isOld).mp link
      exact (ih (earlier.parent_mem oldLink)).trans (.of_parent oldLink)
  · intro past
    induction past using TransGen.head_induction_on with
    | single link => exact .of_parent ((isParent_old fresh isOld).mpr link)
    | head link rest ih =>
      exact (ih (earlier.parent_mem link)).trans (.of_parent ((isParent_old fresh isOld).mpr link))

include known

theorem inPast_new : InPast ((node, parents) :: dag) ancestor node ↔
      ∃ parent ∈ parents, ancestor = parent ∨ InPast dag ancestor parent := by
  constructor
  · intro past
    rcases TransGen.head'_iff.mp past with ⟨parent, link, rest⟩
    have isParent := (isParent_new fresh).mp link
    refine ⟨parent, isParent, ?_⟩
    rcases reflTransGen_iff_eq_or_transGen.mp rest with same | path
    · exact .inl same
    · exact .inr ((inPast_old earlier fresh (known parent isParent)).mp path)
  · rintro ⟨parent, isParent, same | past⟩
    · rw [same]
      exact .of_parent ((isParent_new fresh).mpr isParent)
    · exact ((inPast_old earlier fresh (known parent isParent)).mpr past).trans
        (.of_parent ((isParent_new fresh).mpr isParent))

end Cons

theorem irrefl (topo : Topological dag) : ¬ InPast dag node node := by
  induction topo with
  | nil =>
    intro past
    exact absurd past.node_mem not_mem_nil
  | @cons dag newest parents earlier fresh known ih =>
    intro past
    rcases mem_nodes.mp past.node_mem with isNew | isOld
    · rw [isNew, inPast_new earlier fresh known] at past
      rcases past with ⟨parent, link, same | old⟩
      · rw [same] at fresh
        exact fresh (known parent link)
      · exact fresh (earlier.ancestor_mem old)
    · exact ih ((inPast_old earlier fresh isOld).mp past)

end Topological

/-- How many nodes were there when the node had been added. -/
def age [DecidableEq α] (dag : Dag α) (node : α) : Nat :=
  match dag with
  | [] => 0
  | (newest, _) :: dag =>
    if node = newest then dag.length + 1 else age dag node

section Age

variable [DecidableEq α]

theorem age_le (dag : Dag α) (node : α) : age dag node ≤ dag.length := by
  induction dag with
  | nil => exact le_refl 0
  | cons entry dag ih =>
    rw [age]
    split_ifs
    · exact le_rfl
    · exact Nat.le_succ_of_le ih

theorem age_pos (isNode : node ∈ nodes dag) : 0 < age dag node := by
  induction dag with
  | nil => cases isNode
  | cons entry dag ih =>
    rw [age]
    split_ifs with isNew
    · exact Nat.succ_pos _
    · exact ih ((mem_nodes.mp isNode).resolve_left isNew)

theorem Topological.age_lt (topo : Topological dag)
    (link : IsParent dag node parent) : age dag parent < age dag node := by
  induction topo with
  | nil =>
    rcases link with ⟨parents, mem, -⟩
    cases mem
  | @cons dag newest parents earlier fresh known ih =>
    rw [age, age]
    by_cases isNew : node = newest
    · subst isNew
      have isParent := known parent ((isParent_new fresh).mp link)
      have ne : parent ≠ node := by
        rintro rfl
        exact fresh isParent
      rw [if_neg ne, if_pos rfl]
      exact Nat.lt_succ_of_le (age_le dag parent)
    · have isOld : node ∈ nodes dag := (mem_nodes.mp link.node_mem).resolve_left isNew
      have oldLink := (isParent_old fresh isOld).mp link
      have ne : parent ≠ newest := by
        rintro rfl
        exact fresh (earlier.parent_mem oldLink)
      rw [if_neg ne, if_neg isNew]
      exact ih oldLink

end Age

/-- Whether the first node is the second one or in its past. -/
def isAncestor [DecidableEq α] (dag : Dag α) (ancestor node : α) : Bool :=
  match dag with
  | [] => false
  | (newest, parents) :: dag =>
    if node = newest then
      ancestor = newest || parents.any (isAncestor dag ancestor)
    else isAncestor dag ancestor node

theorem Topological.isAncestor_iff [DecidableEq α] (topo : Topological dag)
    (isNode : node ∈ nodes dag) : isAncestor dag ancestor node = true ↔ ancestor = node ∨
    InPast dag ancestor node := by
  induction topo generalizing node with
  | nil => cases isNode
  | @cons dag newest parents earlier fresh known ih =>
    rw [isAncestor]
    by_cases isNew : node = newest
    · rw [if_pos isNew, isNew, inPast_new earlier fresh known,
        Bool.or_eq_true, decide_eq_true_eq, any_eq_true]
      refine or_congr_right ?_
      constructor
      · rintro ⟨parent, link, above⟩
        exact ⟨parent, link, (ih (known parent link)).mp above⟩
      · rintro ⟨parent, link, above⟩
        exact ⟨parent, link, (ih (known parent link)).mpr above⟩
    · have isOld := (mem_nodes.mp isNode).resolve_left isNew
      rw [if_neg isNew, inPast_old earlier fresh isOld]
      exact ih isOld

end Htnd.Lib.BlockDag
