import Htnd.Ghostdag.Manager
import Htnd.Lib.BlockDag
import Htnd.Lib.Fallible
import Htnd.Lib.PrunedSearch

/-!
# The merge set

If the manager answers for a graph, the search for the merge set ends and
finds the past of the new block that is not in the past of the selected
parent, every block once.  Sorting changes the order only.
-/

namespace Htnd.Ghostdag.MergeSet

open Relation Lib.BlockDag Lib.Fallible Lib.PrunedSearch Utxo.Entry Manager List

/-- The block relations and the reachability queries are those of a graph. -/
structure Exact (gm : GhostdagManager) (dag : Dag DomainHash) : Prop where
  parents : ∀ block blockParents, (block, blockParents) ∈ dag → gm.parents block = .ok blockParents
  isAncestorOf : ∀ ancestor ∈ nodes dag, ∀ block ∈ nodes dag, ∃ answer,
    gm.isAncestorOf ancestor block = .ok answer ∧
    (answer = true ↔ ancestor = block ∨ InPast dag ancestor block)

variable {gm : GhostdagManager} {dag : Dag DomainHash}
  {store : GHOSTDAGDataStore} {chosen : DomainHash}

variable {block : DomainHash}

theorem Exact.tail {blockParents : List DomainHash}
    (exact : Exact gm ((block, blockParents) :: dag))
    (topo : Topological dag) (fresh : block ∉ nodes dag) : Exact gm dag where
  parents other otherParents entry := exact.parents other otherParents (.tail _ entry)
  isAncestorOf upper upperIn other otherIn := by
    rcases exact.isAncestorOf upper (mem_nodes.mpr (.inr upperIn)) other
      (mem_nodes.mpr (.inr otherIn)) with ⟨answer, answers, iff⟩
    refine ⟨answer, answers, ?_⟩
    rw [iff, topo.inPast_old fresh otherIn]

def linksOf (gm : GhostdagManager) (block : DomainHash) : List DomainHash :=
  (gm.parents block).toOption.getD []

/-- The search stops at the selected parent and its past. -/
def Stops (dag : Dag DomainHash) (selectedParent block : DomainHash) : Prop :=
  block = selectedParent ∨ InPast dag block selectedParent

section Search

variable (topo : Topological dag) (exact : Exact gm dag)

include exact

omit topo in
theorem parents_eq_linksOf (inDag : block ∈ nodes dag) :
    gm.parents block = .ok (linksOf gm block) := by
  rcases mem_map.mp inDag with ⟨⟨_, parents⟩, entry, same⟩
  cases same
  rw [linksOf, exact.parents _ parents entry]
  rfl

include topo

theorem mem_linksOf_iff {parent : DomainHash} (inDag : block ∈ nodes dag) :
    parent ∈ linksOf gm block ↔ IsParent dag block parent := by
  rcases mem_map.mp inDag with ⟨⟨_, parents⟩, entry, same⟩
  cases same
  rw [linksOf, exact.parents _ parents entry]
  exact topo.mem_parents_iff entry

variable (parentIn : chosen ∈ nodes dag)

include parentIn

/-- What is known of the state of the search. -/
structure Searching (gm : GhostdagManager) (dag : Dag DomainHash)
    (selectedParent : DomainHash) (starts done queue : List DomainHash)
    (pending : List (DomainHash × DomainHash)) (search : MergeSetSearch) : Prop where
  explored : Explored (linksOf gm) (Stops dag selectedParent) starts done queue pending
  isMergeSet : search.mergeSet = done ++ queue
  isQueue : search.queue = queue
  stops : ∀ block ∈ search.selectedParentPast, Stops dag selectedParent block
  inDag : ∀ block ∈ done ++ queue, block ∈ nodes dag

variable {starts done queue : List DomainHash} {search : MergeSetSearch}

/-- The parents of one block are visited. -/
theorem visitParents_eq {rest : List DomainHash} {here : DomainHash} (isDone : here ∈ done)
    (areLinks : ∀ parent ∈ rest, parent ∈ linksOf gm here)
    (searching : Searching gm dag chosen starts done queue (rest.map fun parent => (here, parent))
    search) : ∃ queue' search', visitParents gm chosen rest search = .ok search' ∧
    Searching gm dag chosen starts done queue' [] search' := by
  induction rest generalizing queue search with
  | nil => exact ⟨queue, search, rfl, searching⟩
  | cons parent rest ih =>
    have restLinks := fun other isIn => areLinks other (.tail parent isIn)
    have isLink := areLinks parent (.head _)
    have currentIn := searching.inDag here (mem_append_left _ isDone)
    have parentInDag : parent ∈ nodes dag := topo.parent_mem
      ((mem_linksOf_iff topo exact currentIn).mp isLink)
    rcases searching with ⟨seen, merges, isQueue, stops, inDag⟩
    rw [visitParents]
    by_cases found : parent ∈ search.mergeSet
    · rw [if_pos found]
      rw [merges] at found
      exact ih restLinks ⟨seen.skip (.inr found), merges, isQueue, stops, inDag⟩
    rw [if_neg found]
    by_cases isPast : parent ∈ search.selectedParentPast
    · rw [if_pos isPast]
      exact ih restLinks ⟨seen.skip (.inl (stops parent isPast)), merges, isQueue, stops, inDag⟩
    rw [if_neg isPast]
    rcases exact.isAncestorOf parent parentInDag chosen parentIn with ⟨answer, answers, iff⟩
    rw [ok_bind answers]
    cases answer with
    | true =>
      have stopsHere : Stops dag chosen parent := iff.mp rfl
      refine ih restLinks ⟨seen.skip (.inl stopsHere), merges, isQueue, ?_, inDag⟩
      intro block isBlock
      rcases mem_cons.mp isBlock with rfl | old
      · exact stopsHere
      · exact stops block old
    | false =>
      have goesOn : ¬ Stops dag chosen parent :=
        fun stopsHere => Bool.false_ne_true (iff.mpr stopsHere)
      rw [merges] at found
      refine ih restLinks ⟨seen.enqueue isDone isLink goesOn found, ?_, ?_, stops, ?_⟩
      · rw [← append_assoc, ← merges]
      · rw [← isQueue]
      · intro block isBlock
        rw [← append_assoc, mem_append, mem_singleton] at isBlock
        rcases isBlock with old | rfl
        · exact inDag block old
        · exact parentInDag

/-- The search ends within as many rounds as there are blocks. -/
theorem searchMergeSet_eq (rounds : Nat) (enough : (nodes dag).length ≤ rounds + done.length)
    (searching : Searching gm dag chosen starts done queue [] search) : ∃ found search',
    searchMergeSet gm chosen rounds search = .ok search' ∧ Searching gm dag chosen starts found []
    [] search' := by
  fun_induction searchMergeSet gm chosen rounds search generalizing done queue with
  | case1 rounds search empty =>
    obtain rfl : queue = [] := searching.isQueue.symm.trans empty
    exact ⟨done, search, rfl, searching⟩
  | case2 search here rest isQueue =>
    rw [searching.isQueue] at isQueue
    have few := (subperm_of_subset searching.explored.nodup searching.inDag).length_le
    simp only [isQueue, length_append, length_cons] at few
    omega
  | case3 search here rest isQueue rounds ih =>
    obtain rfl : queue = here :: rest := searching.isQueue.symm.trans isQueue
    have currentIn := searching.inDag here (by simp)
    have taken := searching.explored.take
    have visiting : Searching gm dag chosen starts (done ++ [here]) rest
        ((linksOf gm here).map fun parent => (here, parent))
        { search with queue := rest } := by
      refine ⟨taken, ?_, rfl, searching.stops, ?_⟩
      · rw [searching.isMergeSet, append_cons]
      · rw [← append_cons]
        exact searching.inDag
    rcases visitParents_eq topo exact parentIn (by simp) (fun _ isLink => isLink) visiting with
      ⟨_, search', visits, searching'⟩
    rw [ok_bind (parents_eq_linksOf exact currentIn), ok_bind visits]
    refine ih search' ?_ searching'
    rw [length_append, length_singleton]
    omega

end Search

/-! ## Sorting -/

section

variable {merged : List DomainHash}
  (hasData : ∀ block ∈ merged, ∃ data, store.lookup block = some data)

include hasData

/-- The data of all blocks is read. -/
theorem readAll_eq : ∃ withData, (merged.mapM fun blockHash => do
        let data ← getData store blockHash
        return (blockHash, data)) = .ok withData ∧
      withData.map Prod.fst = merged := by
  induction merged with
  | nil => exact ⟨[], rfl, rfl⟩
  | cons block merged ih =>
    rcases hasData block (.head _) with ⟨data, found⟩
    rcases ih fun other isIn => hasData other (.tail block isIn) with ⟨withData, reads, same⟩
    have read : (do
        let data ← getData store block
        return (block, data)) = Except.ok (block, data) := by
      rw [getData, found]
      rfl
    refine ⟨(block, data) :: withData, ?_, ?_⟩
    · rw [mapM_cons, ok_bind read, ok_bind reads]
      rfl
    · rw [map_cons, same]

/-- Sorting permutes, if there is data for every block. -/
theorem sortMergeSet_eq : ∃ sorted, sortMergeSet store merged = .ok sorted ∧
      sorted.Perm merged := by
  rw [sortMergeSet]
  split_ifs
  · exact ⟨merged, rfl, List.Perm.refl _⟩
  rcases readAll_eq hasData with ⟨_, reads, same⟩
  rw [ok_bind reads]
  refine ⟨_, rfl, ?_⟩
  rw [← same]
  exact (perm_insertionSort _ _).map Prod.fst

end

/-! ## The merge set -/

/-- Following links that do not stop is following parents that do not. -/
theorem reached_iff (topo : Topological dag) (exact : Exact gm dag) {start : DomainHash}
    (startIn : start ∈ nodes dag) (goesOn : ¬ Stops dag chosen start) :
    ReflTransGen (Link (linksOf gm) (Stops dag chosen)) start block ↔
    (block = start ∨ InPast dag block start) ∧ ¬ Stops dag chosen block := by
  constructor
  · intro path
    induction path with
    | refl => exact ⟨.inl rfl, goesOn⟩
    | @tail middle block _ link ih =>
      have middleIn : middle ∈ nodes dag := by
        rcases ih.1 with rfl | past
        · exact startIn
        · exact topo.ancestor_mem past
      have step := InPast.of_parent ((mem_linksOf_iff topo exact middleIn).mp link.1)
      refine ⟨?_, link.2⟩
      rcases ih.1 with rfl | past
      · exact .inr step
      · exact .inr (step.trans past)
  · rintro ⟨rfl | past, notStops⟩
    · exact .refl
    · induction past using TransGen.head_induction_on with
      | single link => exact .single ⟨(mem_linksOf_iff topo exact startIn).mpr link, notStops⟩
      | @head start middle link rest ih =>
        have middleGoesOn : ¬ Stops dag chosen middle := by
          rintro (rfl | past)
          · exact notStops (.inr rest)
          · exact notStops (.inr (.trans rest past))
        exact .head ⟨(mem_linksOf_iff topo exact startIn).mpr link, middleGoesOn⟩
          (ih (topo.parent_mem link) middleGoesOn)

/-- No two of the blocks are related. -/
def Unrelated (dag : Dag DomainHash) (blocks : List DomainHash) : Prop :=
  blocks.Nodup ∧ ∀ first ∈ blocks, ∀ second ∈ blocks, ¬ InPast dag first second

theorem mergeSetWithoutSelectedParent_eq (topo : Topological dag) (exact : Exact gm dag)
    {parents : List DomainHash} (known : ∀ parent ∈ parents, parent ∈ nodes dag)
    (apart : Unrelated dag parents) (link : chosen ∈ parents) (rounds : Nat)
    (enough : (nodes dag).length ≤ rounds) (hasData : ∀ block ∈ nodes dag, ∃ data,
    store.lookup block = some data) : ∃ merged, mergeSetWithoutSelectedParent gm rounds store chosen
    parents = .ok merged ∧ merged.Nodup ∧ ∀ block, block ∈ merged ↔
    (∃ parent ∈ parents, block = parent ∨ InPast dag block parent) ∧ ¬ Stops dag chosen block := by
  have parentIn := known chosen link
  have starts : ∀ parent ∈ parents.filter (· ≠ chosen),
      parent ∈ parents ∧ parent ∈ nodes dag ∧ ¬ Stops dag chosen parent := by
    intro parent isStart
    rw [mem_filter, decide_eq_true_eq] at isStart
    refine ⟨isStart.1, known parent isStart.1, ?_⟩
    rintro (same | past)
    · exact isStart.2 same
    · exact apart.2 parent isStart.1 chosen link past
  have initial : Searching gm dag chosen (parents.filter (· ≠ chosen)) []
      (parents.filter (· ≠ chosen)) [] ⟨parents.filter (· ≠ chosen), [],
      parents.filter (· ≠ chosen)⟩ := ⟨Explored.initial (apart.1.filter _), rfl,
      rfl, by simp, fun parent isStart => (starts parent isStart).2.1⟩
  rcases searchMergeSet_eq topo exact parentIn rounds
    (by simpa using enough) initial with ⟨found, search, searches, searching⟩
  have isFound : search.mergeSet = found := by rw [searching.isMergeSet, append_nil]
  have foundIn : ∀ block ∈ found, block ∈ nodes dag := fun block isBlock =>
    searching.inDag block (mem_append_left _ isBlock)
  rcases sortMergeSet_eq fun block isBlock =>
    hasData block (foundIn block isBlock) with ⟨sorted, sorts, perm⟩
  have nodup := searching.explored.nodup
  rw [append_nil] at nodup
  refine ⟨sorted, ?_, perm.nodup_iff.mpr nodup, ?_⟩
  · rw [mergeSetWithoutSelectedParent, ok_bind searches, isFound]
    exact sorts
  · intro block
    rw [perm.mem_iff, searching.explored.mem_iff]
    constructor
    · rintro ⟨start, isStart, path⟩
      rcases starts start isStart with ⟨isStartParent, startIn, goesOn⟩
      rcases (reached_iff topo exact startIn goesOn).mp path with ⟨above, notStops⟩
      exact ⟨⟨start, isStartParent, above⟩, notStops⟩
    · rintro ⟨⟨parent, isBlockParent, above⟩, notStops⟩
      have ne : parent ≠ chosen := by
        rintro rfl
        exact notStops above
      have isStart : parent ∈ parents.filter (· ≠ chosen) := by simp [isBlockParent, ne]
      rcases starts parent isStart with ⟨-, startIn, goesOn⟩
      exact ⟨parent, isStart, (reached_iff topo exact startIn goesOn).mpr ⟨above, notStops⟩⟩

end Htnd.Ghostdag.MergeSet
