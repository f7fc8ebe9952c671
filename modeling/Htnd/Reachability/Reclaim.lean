import Htnd.Reachability.Offset

/-!
# Reclaiming slack along the chain

A node beside the chain to the reindex root that is short of room gets it from
the chain.  The slack beside the chain nodes is added up from the chosen child
towards the reindex root until it suffices, and carried back from there: every
hop takes numbers from a chain node and moves its siblings over them, which
widens the gap of the next node above, until the node short of room takes them.
-/

namespace Htnd.Reachability.Reclaim

open Lib.RootedTree Lib.SpanTree Utxo.Entry Reachability.Interval
  Reachability.Tree Reindex List
open Shape Outcome Propagate Ancestors Invariant Offset

variable {shape : TreeShape} {genesis root taker common : DomainHash}
  {spared : DomainHash → Prop} {slack : Nat} {span0 span middle : DomainHash → Span} {side : Side}
  {rc rc' : ReindexContext} {manager : ReachabilityManager} {rounds : Nat}

/-- A node beside the chain has fewer numbers than its subtree has nodes. -/
structure ShortOfRoom (shape : TreeShape) (genesis root allocationNode commonAncestor : DomainHash)
    (spared : DomainHash → Prop) (slack : Nat) (span : DomainHash → Span) : Prop where
  tree : Rooted shape.children shape.parent genesis
  ample : Ample slack (size shape.children genesis)
  indexed : Indexed shape.children genesis spared slack root span
  member : allocationNode ∈ shape.children commonAncestor
  onChain : Below shape.children commonAncestor root
  different : commonAncestor ≠ root
  beside : ¬ Below shape.children allocationNode root
  isSpared : ∀ other, spared other → Below shape.children allocationNode other
  short : (span allocationNode).width < size shape.children allocationNode

namespace ShortOfRoom

variable (short : ShortOfRoom shape genesis root taker common spared slack span0)

include short

theorem bound : size shape.children genesis < 2 ^ 64 := short.ample.nodes_le.trans_lt (by decide)

theorem aboveIn : shape.Below genesis common := short.tree.rooted short.member

/-- A node under another child of the common ancestor spares nothing. -/
theorem none_spared {node : DomainHash} (below : shape.Below common node)
    (ne : node ≠ common) (apart : ¬ shape.Below taker node) {other : DomainHash}
    (under : shape.Below node other) : ¬ spared other := by
  intro isSpared
  rcases short.tree.comparable under (short.isSpared other isSpared) with
    up | down
  · rcases up.cases_parent with same | ⟨_, lastIn, path⟩
    · rw [same] at apart
      exact apart (.refl taker)
    · rw [short.tree.parent_unique lastIn short.member] at path
      exact ne (short.tree.antisymm (short.aboveIn.trans below) path below)
  · exact apart down

end ShortOfRoom

/-! ## The state between two hops -/

variable {node : DomainHash} {own other : Nat}

/-- The gaps of a tight node, seen from a side. -/
theorem sideGaps_of_tight (side : Side) (tight : Tight span shape.children slack root node) :
    ∃ own other, side.SideGaps span shape.children node own other ∧ own ≤ slack ∧
    other ≤ slack := by
  rcases tight.1 with ⟨before, after, gaps, early, late⟩
  cases side with
  | before => exact ⟨before, after, gaps, early, late⟩
  | after => exact ⟨after, before, gaps, late, early⟩

theorem tight_of_sideGaps (gaps : side.SideGaps span shape.children node own other)
    (ownAtMost : own ≤ slack) (otherAtMost : other ≤ slack)
    (narrow : NarrowBeside span shape.children slack root node) :
    Tight span shape.children slack root node := by
  refine ⟨?_, narrow⟩
  cases side with
  | before => exact ⟨own, other, gaps, ownAtMost, otherAtMost⟩
  | after => exact ⟨other, own, gaps, otherAtMost, ownAtMost⟩

variable {own' other' : Nat}

theorem sideGaps_unique {own other : Nat} (gaps : side.SideGaps span shape.children node own other)
    (gaps' : side.SideGaps span shape.children node own' other')
    (inner : shape.children node ≠ []) : own = own' ∧ other = other' := by
  cases side with
  | before => exact gaps.unique gaps' inner
  | after => exact (gaps.unique gaps' inner).symm

theorem encloses_of_sideGaps (gaps : side.SideGaps span shape.children node own other) :
    Encloses span shape.children node := by
  cases side with
  | before | after => exact gaps.encloses

section

variable {own other offset : Nat} (gaps : side.SideGaps span shape.children node own other)
  (atMost : offset ≤ own)

include gaps atMost

/-- A node that gives up part of its gap keeps the rest. -/
theorem sideGaps_shrunk {span' : DomainHash → Span}
    (atNode : span' node = side.shrunk (span node) offset) (alike : ∀ child ∈ shape.children node,
    span' child = span child) : side.SideGaps span' shape.children node (own - offset) other := by
  cases side with
  | before =>
    rcases gaps with ⟨stop, tiles, atEnd⟩
    refine ⟨stop, ?_, by rw [atNode]; exact atEnd⟩
    rw [atNode]
    change Tiles span' ((span node).lo + offset + (own - offset)) _ stop
    rw [add_assoc, Nat.add_sub_cancel' atMost]
    exact tiles.congr alike
  | after =>
    rcases gaps with ⟨stop, tiles, atEnd⟩
    refine ⟨stop, ?_, ?_⟩
    · rw [atNode]
      exact tiles.congr alike
    · rw [atNode]
      change stop + 1 + (own - offset) = (span node).hi - offset
      omega

theorem offset_lt_width : offset < (span node).width := by
  rw [Span.width]
  cases side with
  | before | after =>
    rcases gaps with ⟨_, tiles, _⟩
    have upward := tiles.le
    omega

end

/--
The slack has been carried up to a chain node, whose gap on the side it has
widened.  Compared with the spans before, only those strictly under this node
have changed.
-/
structure Walking (shape : TreeShape) (genesis root : DomainHash)
    (spared : DomainHash → Prop) (slack : Nat) (side : Side)
    (current : DomainHash) (own : Nat) (span0 span : DomainHash → Span) : Prop where
  nested : Nested shape.children genesis spared span
  tight : ∀ node, Below shape.children genesis node → Below shape.children node root → node ≠ root →
    node ≠ current → Tight span shape.children slack root node
  here : current ≠ root → (∃ other, side.SideGaps span shape.children current own other ∧
    other ≤ slack) ∧ NarrowBeside span shape.children slack root current
  outside : ∀ other, (Below shape.children current other → other = current) →
    span other = span0 other

theorem walking_of {current : DomainHash} {own : Nat}
    (index : Indexed shape.children genesis spared slack root span0)
    (inTree : shape.Below genesis current) (onChain : shape.Below current root)
    (gaps : current ≠ root → ∃ other, side.SideGaps span0 shape.children current own other) :
    Walking shape genesis root spared slack side current own span0 span0 where
  nested := index.toNested
  tight node inTree onChain different _ := index.tight node inTree onChain different
  here different := by
    have tight := index.tight current inTree onChain different
    have inner : shape.children current ≠ [] := by
      intro isLeaf
      rcases onChain.cases_child with same | ⟨_, mem, -⟩
      · exact different same
      · rw [isLeaf] at mem
        cases mem
    rcases sideGaps_of_tight side tight with ⟨_, _, gaps', -, otherAtMost⟩
    rcases gaps different with ⟨other, gaps⟩
    rw [← (sideGaps_unique gaps gaps' inner).2] at otherAtMost
    exact ⟨⟨other, gaps, otherAtMost⟩, tight.2⟩
  outside _ _ := rfl

/-! ## One hop -/

section Hop

variable {current above : DomainHash} {own offset : Nat}
  {front back : List DomainHash} {span' : DomainHash → Span}

variable {nodes : List DomainHash} {new : DomainHash → Span}

/-- Both changes of a hop together. -/
theorem moved_of_hop (tree : shape.Rooted genesis) (mem : current ∈ shape.children above)
    (shrunk : Shrunk shape.children side current offset span middle)
    (members : ∀ node ∈ nodes, node ∈ shape.children above) (notIn : current ∉ nodes)
    (moved : Moved shape.children nodes new middle span') :
    Moved shape.children (current :: nodes) span' span span' :=
  moved_append tree (forall_mem_cons.mpr ⟨mem, members⟩) (forall_mem_singleton.mpr notIn)
    (moved_of_replaced ⟨shrunk.atNode, shrunk.outside, shrunk.encloses⟩) moved

variable (walking : Walking shape genesis root spared slack side current own span0 span)
  (tree : shape.Rooted genesis) (mem : current ∈ shape.children above)
  (onChain : shape.Below current root) (shrunk : Shrunk shape.children side current offset span
  middle) (kept : current ≠ root → ∀ other, other ≠ current → middle other = span other)
  (remains : current ≠ root → offset ≤ own ∧ own - offset ≤ slack)

include walking tree mem onChain

theorem tight_above : Tight span shape.children slack root above := by
  refine walking.tight above (tree.rooted mem)
    ((Below.of_child mem).trans onChain) ?_ (tree.child_ne mem).symm
  rintro rfl
  exact tree.not_below mem onChain

include shrunk kept remains

/-- After a hop the chain is tight but for the node above. -/
theorem tight_of_hop (members : ∀ node ∈ nodes, node ∈ shape.children above)
    (notIn : current ∉ nodes) (moved : Moved shape.children nodes new middle span')
    {node : DomainHash} (inTree : shape.Below genesis node) (nodeOnChain : shape.Below node root)
    (ne : node ≠ root) (notAbove : node ≠ above) : Tight span' shape.children slack root node := by
  have both := moved_of_hop tree mem shrunk members notIn moved
  have allIn := forall_mem_cons.mpr ⟨mem, members⟩
  have same : ∀ other, shape.Below current other → span' other = middle other := by
    intro other below
    refine moved.outside other fun peer beside under => notIn ?_
    rw [tree.child_unique mem (members peer beside) below under]
    exact beside
  rcases tree.comparable nodeOnChain ((Below.of_child mem).trans onChain) with up | down
  · have beyond : ∀ child ∈ current :: nodes, ¬ shape.Below child node := fun child isChild below =>
      tree.not_below (allIn child isChild) (below.trans up)
    rcases both.frame tree allIn notAbove beyond with ⟨sameNode, alike⟩
    refine (walking.tight node inTree nodeOnChain ne ?_).congr sameNode alike
    rintro rfl
    exact beyond node (.head _) (.refl node)
  · rcases down.cases_child with isAbove | ⟨child, isChild, path⟩
    · exact absurd isAbove.symm notAbove
    rw [tree.child_unique isChild mem (path.trans nodeOnChain) onChain] at path
    have currentNotRoot : current ≠ root := by
      rintro rfl
      exact ne (tree.antisymm inTree nodeOnChain path)
    have sameBelow : ∀ other, shape.Below current other →
        other ≠ current → span' other = span other := fun other below notCurrent =>
        (same other below).trans (kept currentNotRoot other notCurrent)
    have alike : ∀ child ∈ shape.children node, span' child = span child := by
      intro child isChild
      refine sameBelow child (path.trans (.of_child isChild)) ?_
      rintro rfl
      exact tree.not_below isChild path
    by_cases isCurrent : node = current
    · rw [isCurrent] at alike ⊢
      rcases walking.here currentNotRoot with ⟨⟨other, gaps, otherAtMost⟩, narrow⟩
      have rest := remains currentNotRoot
      exact tight_of_sideGaps (sideGaps_shrunk gaps rest.1
        ((same current (.refl current)).trans shrunk.atNode)
        alike) rest.2 otherAtMost (narrow.congr alike)
    · exact (walking.tight node inTree nodeOnChain ne
        isCurrent).congr (sameBelow node path isCurrent) alike

end Hop

variable {post : ReindexContext → Prop}

/-- The loop over the siblings starts from the split at the node. -/
theorem offset_meets (tree : shape.Rooted genesis) {current above : DomainHash} {offset : UInt64}
    (ok : ContextOk shape rc) (mem : current ∈ shape.children above)
    (each : ∀ front back, shape.children above = front ++ current :: back →
    Meets post (offsetEach manager rounds side.reclaim taker offset (side.siblings front back) rc))
    : Meets post (offsetSiblings manager rounds side.reclaim rc taker current offset) := by
  refine (harmless_parent rc.store current).read fun _ read => ?_
  have link := parent_ok ok.isShape read
  rw [tree.mem_children.mp mem] at link
  cases link
  refine (harmless_splitChildren rc.store above current).read fun parts splits => ?_
  rcases parts with ⟨front, back⟩
  have meets := each front back (splitChildren_ok ok.isShape splits)
  cases side with
  | before | after => exact meets

variable {child : DomainHash}

theorem mem_siblings {current above : DomainHash} {front back : List DomainHash}
    (split : shape.children above = front ++ current :: back)
    (mem : child ∈ shape.children above) (ne : child ≠ current) : child ∈ front ++ back := by
  rw [split, mem_append, mem_cons] at mem
  rw [mem_append]
  exact mem.imp_right fun inBack => inBack.resolve_left ne

section Hop

variable {current above : DomainHash} {own : Nat} {offset : UInt64}
  (short : ShortOfRoom shape genesis root taker common spared slack span0)
  (walking : Walking shape genesis root spared slack side current own span0 span)
  (mem : current ∈ shape.children above) (onChain : shape.Below current root)
  (shrunk : Shrunk shape.children side current offset.toNat span (spanOf rc.store))
  (kept : current ≠ root → ∀ other, other ≠ current → spanOf rc.store other = span other)
  (remains : current ≠ root → offset.toNat ≤ own ∧ own - offset.toNat ≤ slack)
  (less : offset.toNat < (span current).width)

include short walking mem shrunk less

variable {front back : List DomainHash} {peer : DomainHash}

section

variable (split : shape.children above = front ++ current :: back)
  (beside : peer ∈ side.siblings front back)

include split beside

/-- A sibling on the side can take over the numbers, also after the node
gave them up. -/
theorem free_after : spanOf rc.store peer = span peer ∧ side.Free (span peer) offset.toNat := by
  have tree := short.tree
  have aboveIn := tree.rooted mem
  have facts := sibling_facts tree split (mem_of_siblings side beside)
  have bounds := walking.nested.bounds aboveIn
  rcases walking.nested.encloses_inner aboveIn (ne_nil_of_mem mem) with ⟨_, _, _, tiles, atMost⟩
  rw [split] at tiles
  refine ⟨shrunk.outside peer facts.2.2, ?_⟩
  rcases tiles_append.mp tiles with ⟨_, left, _, _, right⟩
  have below := right.le
  rw [Span.width] at less
  cases side with
  | before =>
    have inside := left.bounds (mem_reverse.mp beside)
    change (span peer).hi + offset.toNat < 2 ^ 64
    omega
  | after =>
    have inside := right.bounds beside
    change offset.toNat < (span peer).lo
    omega

theorem movable_of_sibling (noneSpared : ∀ other, shape.Below peer other → ¬ spared other) :
    Movable side offset.toNat shape.children (spanOf rc.store) peer := by
  have tree := short.tree
  have facts := sibling_facts tree split (mem_of_siblings side beside)
  have inTree := (tree.rooted facts.1).trans (.of_child facts.1)
  have bounds := walking.nested.bounds inTree
  rcases free_after short walking mem shrunk less split beside with ⟨same, free⟩
  refine Movable.congr ⟨bounds.1, ?_, bounds.2.2, free, ?_⟩ same
  · exact (walking.nested.encloses peer inTree (noneSpared peer (.refl peer))).nonempty
  · exact walking.nested.size_le_width tree inTree noneSpared

theorem width_of_moved : (side.moved (spanOf rc.store peer) offset.toNat).width =
    (span peer).width := by
  rcases free_after short walking mem shrunk less split beside with ⟨same, free⟩
  rw [same, Side.width_moved free]

end

include onChain kept remains

/-- Away from the common ancestor all siblings on the side move. -/
theorem hop_apart (below : shape.Below common above) (ne : above ≠ common) (ok : ContextOk shape rc)
    (gaps : side.SideGaps span0 shape.children above own' other') :
    Meets (fun rc' => ContextOk shape rc' ∧ Walking shape genesis root spared slack side above
    (own' + offset.toNat) span0 (spanOf rc'.store))
    (offsetSiblings manager rounds side.reclaim rc taker current offset) := by
  have tree := short.tree
  refine offset_meets tree ok mem fun front back split => ?_
  have apart : ∀ peer ∈ shape.children above, ¬ shape.Below taker peer := by
    intro peer beside under
    rcases under.cases_parent with same | ⟨_, lastIn, path⟩
    · rw [← same] at beside
      exact ne (tree.parent_unique beside short.member)
    · rw [tree.parent_unique lastIn beside] at path
      exact short.beside (path.trans ((Below.of_child mem).trans onChain))
  have notIn : taker ∉ side.siblings front back := by
    intro beside
    have facts := sibling_facts tree split (mem_of_siblings side beside)
    exact apart taker facts.1 (.refl taker)
  have noneSpared : ∀ peer ∈ shape.children above, ∀ other,
      shape.Below peer other → ¬ spared other := by
    intro peer beside other under
    refine short.none_spared (below.trans (.of_child beside)) ?_ (apart peer beside) under
    rintro rfl
    exact tree.not_below beside below
  have members : ∀ peer ∈ side.siblings front back, peer ∈ shape.children above :=
      fun peer beside => (sibling_facts tree split (mem_of_siblings side beside)).1
  have currentNotIn : current ∉ side.siblings front back := fun beside =>
    (sibling_facts tree split (mem_of_siblings side beside)).2.1 rfl
  rw [← List.append_nil (side.siblings front back)]
  refine offsetEach_front tree short.bound side notIn members (side.nodup_siblings tree split) ok
    (fun peer beside => movable_of_sibling short walking mem shrunk less split beside
    (noneSpared peer (members peer beside))) ?_
  intro rc' ok' moved
  have both := moved_of_hop tree mem shrunk members currentNotIn moved
  have allIn := forall_mem_cons.mpr ⟨mem, members⟩
  have gapsNow : side.SideGaps span shape.children above own' other' := by
    have still := walking.outside above fun under => absurd under (tree.not_below mem)
    cases side with
    | before | after =>
      refine gaps.congr still fun child isChild => ?_
      exact walking.outside child fun under =>
        (tree.child_unique mem isChild under (.refl child)).symm
  have widened := sideGaps_apart tree split shrunk less gapsNow moved
  refine ⟨ok', ?_, ?_, ?_, ?_⟩
  · exact both.nested tree allIn walking.nested (encloses_of_sideGaps widened)
      (fun other isSpared notSpared => absurd isSpared notSpared) walking.nested.leaves
  · intro _ inTree nodeOnChain notRoot notAbove
    exact tight_of_hop walking tree mem onChain shrunk kept remains
      members currentNotIn moved inTree nodeOnChain notRoot notAbove
  · intro _
    have tight := tight_above walking tree mem onChain
    rcases sideGaps_of_tight side tight with ⟨_, _, gaps'', -, otherAtMost⟩
    rw [← (sideGaps_unique gapsNow gaps'' (ne_nil_of_mem mem)).2] at otherAtMost
    refine ⟨⟨other', widened, otherAtMost⟩, ?_⟩
    intro child isChild besides
    refine le_trans (le_of_eq ?_) (tight.2 child isChild besides)
    have notCurrent : child ≠ current := by
      rintro rfl
      exact besides onChain
    have beside := mem_siblings split isChild notCurrent
    by_cases onSide : child ∈ side.siblings front back
    · rw [moved.atNodes child onSide]
      exact width_of_moved short walking mem shrunk less split onSide
    · rw [(span_of_hop tree split shrunk (fun _ => mem_of_siblings side) moved).2.2.2 child beside
          onSide]
  · intro other beyond
    rw [both.outside, walking.outside]
    · intro under
      rw [beyond ((Below.of_child mem).trans under)] at under
      exact absurd under (tree.not_below mem)
    · intro child isChild under
      rw [beyond ((Below.of_child (allIn child isChild)).trans under)] at under
      exact tree.not_below (allIn child isChild) under

/-- At the common ancestor the node short of room takes the numbers. -/
theorem hop_taken (isCommon : above = common) (enough : offset.toNat = size shape.children taker)
    (onSide : ∀ front back, shape.children above = front ++ current :: back →
    taker ∈ side.siblings front back) (ok : ContextOk shape rc) :
    Meets (fun rc' => ContextOk shape rc' ∧ Indexed shape.children genesis (fun _ => False) slack
    root (spanOf rc'.store)) (offsetSiblings manager rounds side.reclaim rc taker current offset) :=
    by
  have tree := short.tree
  have allocationMember : taker ∈ shape.children above := by
    rw [isCommon]
    exact short.member
  have allocationIn := (tree.rooted mem).trans (.of_child allocationMember)
  refine offset_meets tree ok mem fun front back split => ?_
  have beside := onSide front back split
  have facts := sibling_facts tree split (mem_of_siblings side beside)
  rcases free_after short walking mem shrunk less split beside with ⟨sameAllocation, free⟩
  have asBefore := walking.outside taker fun under => absurd under facts.2.2
  have distinct := side.nodup_siblings tree split
  rcases append_of_mem beside with ⟨near, _, siblings⟩
  rw [siblings, nodup_append] at distinct
  have notNear : taker ∉ near := fun isNear => distinct.2.2 taker isNear taker (.head _) rfl
  have nearSiblings : ∀ peer ∈ near, peer ∈ side.siblings front back := by
    intro peer isNear
    rw [siblings]
    exact mem_append_left _ isNear
  have takenSiblings : ∀ peer ∈ near ++ [taker], peer ∈ front ++ back := by
    intro peer isTaken
    rcases mem_append.mp isTaken with isNear | last
    · exact mem_of_siblings side (nearSiblings peer isNear)
    · rw [mem_singleton.mp last]
      exact mem_of_siblings side beside
  have members : ∀ peer ∈ near ++ [taker], peer ∈ shape.children above := fun peer isTaken =>
    (sibling_facts tree split (takenSiblings peer isTaken)).1
  have currentNotIn : current ∉ near ++ [taker] := fun isTaken =>
    (sibling_facts tree split (takenSiblings current isTaken)).2.1 rfl
  have bounds := walking.nested.bounds allocationIn
  rw [siblings]
  refine (offsetEach_taken tree short.bound side notNear members distinct.1 ok
    (fun peer isNear => by
      refine movable_of_sibling short walking mem shrunk less split
        (nearSiblings peer isNear) fun other under isSpared => ?_
      rw [tree.child_unique (members peer (mem_append_left _ isNear)) allocationMember under
        (short.isSpared other isSpared)] at isNear
      exact notNear isNear)
    (by rw [sameAllocation]; exact free)
    (by
      rw [sameAllocation]
      exact Side.roomy_grown bounds.1 bounds.2.2 bounds.2.1 free (by omega))).imp ?_
  rintro rc' ⟨ok', moved⟩
  have both := moved_of_hop tree mem shrunk members currentNotIn moved
  have allIn := forall_mem_cons.mpr ⟨mem, members⟩
  have tight := tight_above walking tree mem onChain
  rcases sideGaps_of_tight side tight with ⟨_, _, gaps, ownAtMost, otherAtMost⟩
  have kept' := sideGaps_taken tree split shrunk less gaps siblings moved
  refine ⟨ok', ?_, ?_⟩
  · refine both.nested tree allIn walking.nested (encloses_of_sideGaps kept') ?_ nofun
    intro other isSpared _
    refine ⟨taker, ?_, short.isSpared other isSpared⟩
    exact .tail _ (mem_append_right _ (.head _))
  · intro node inTree nodeOnChain notRoot
    by_cases isAbove : node = above
    · rw [isAbove]
      refine tight_of_sideGaps kept' ownAtMost otherAtMost ?_
      intro child isChild besides
      have notCurrent : child ≠ current := by
        rintro rfl
        exact besides onChain
      by_cases isAllocation : child = taker
      · rw [isAllocation, moved.atNodes taker (mem_append_right _ (.head _)), newSpan, if_pos rfl,
          sameAllocation, Side.width_grown bounds.2.1 free, asBefore]
        have twice := Nat.mul_le_mul_right (size shape.children taker) short.ample.two_le
        have fewer := short.short
        omega
      · refine le_trans (le_of_eq ?_) (tight.2 child isChild besides)
        by_cases isNear : child ∈ near
        · rw [moved.atNodes child (mem_append_left _ isNear), newSpan, if_neg isAllocation]
          exact width_of_moved short walking mem shrunk less split (nearSiblings child isNear)
        have beside := mem_siblings split isChild notCurrent
        rw [(span_of_hop tree split shrunk takenSiblings moved).2.2.2 child beside]
        intro isTaken
        rcases mem_append.mp isTaken with inNear | last
        · exact isNear inNear
        · exact isAllocation (mem_singleton.mp last)
    · exact tight_of_hop walking tree mem onChain shrunk kept remains
        members currentNotIn moved inTree nodeOnChain notRoot isAbove

end Hop

/-! ## The state after a hop -/

/-- The node short of room is on the side of the chain. -/
def OnSide (shape : TreeShape) (root allocationNode commonAncestor : DomainHash)
    (side : Side) : Prop :=
  ∀ child, Below shape.children child root → ∀ front back, shape.children commonAncestor =
    front ++ child :: back → allocationNode ∈ side.siblings front back

/-- A chain node has handed numbers on to the node above it. -/
def Hopped (shape : TreeShape) (genesis root allocationNode commonAncestor : DomainHash)
    (spared : DomainHash → Prop) (slack : Nat) (side : Side) (current : DomainHash) (offset : Nat)
    (span0 : DomainHash → Span) (rc : ReindexContext) : Prop :=
  ∀ above, current ∈ shape.children above → (above = commonAncestor →
    offset = size shape.children allocationNode → ContextOk shape rc ∧
    Indexed shape.children genesis (fun _ => False) slack root (spanOf rc.store)) ∧
    (above ≠ commonAncestor → ∀ own other, side.SideGaps span0 shape.children above own other →
    ContextOk shape rc ∧ Walking shape genesis root spared slack side above (own + offset) span0
    (spanOf rc.store))

variable {store : ReachabilityDataStore}

section Hopping

variable {current : DomainHash} {own : Nat} {offset : UInt64}
  (short : ShortOfRoom shape genesis root taker common spared slack span0)
  (onSide : OnSide shape root taker common side) (below : shape.Below common current)
  (notCommon : current ≠ common) (onChain : shape.Below current root)

include short below notCommon

/-- The chain under the common ancestor spares nothing. -/
theorem none_spared_of_chain (onChain : shape.Below current root)
    {other : DomainHash} (under : shape.Below current other) : ¬ spared other :=
  short.none_spared below notCommon (fun path => short.beside (path.trans onChain)) under

include onSide onChain

theorem hopped_of_shrunk (ok : ContextOk shape rc) (enough : current ∈ shape.children common →
    offset.toNat = size shape.children taker)
    (walking : Walking shape genesis root spared slack side current own span0 span)
    (shrunk : Shrunk shape.children side current offset.toNat span (spanOf rc.store))
    (kept : current ≠ root → ∀ other, other ≠ current → spanOf rc.store other = span other)
    (remains : current ≠ root → offset.toNat ≤ own ∧ own - offset.toNat ≤ slack)
    (less : offset.toNat < (span current).width) :
    Meets (Hopped shape genesis root taker common spared slack side current offset.toNat span0)
    (offsetSiblings manager rounds side.reclaim rc taker current offset) := by
  have tree := short.tree
  rcases below.cases_parent with same | ⟨above, mem, path⟩
  · exact absurd same.symm notCommon
  by_cases isCommon : above = common
  · refine (hop_taken short walking mem onChain shrunk kept remains less
      isCommon (enough (by rw [← isCommon]; exact mem)) (fun front back split => ?_) ok).imp ?_
    · rw [isCommon] at split
      exact onSide current onChain front back split
    · intro rc' index above' member'
      rw [tree.parent_unique member' mem]
      exact ⟨fun _ _ => index, fun notAbove => absurd isCommon notAbove⟩
  · have aboveOnChain := (Below.of_child mem).trans onChain
    have notRoot : above ≠ root := by
      rintro rfl
      exact tree.not_below mem onChain
    rcases sideGaps_of_tight side (short.indexed.tight above
      (tree.rooted mem) aboveOnChain notRoot) with ⟨_, _, gaps, -, -⟩
    refine (hop_apart short walking mem onChain shrunk kept remains less
      path isCommon ok gaps).imp ?_
    intro rc' walked above' member'
    rw [tree.parent_unique member' mem]
    refine ⟨fun same => absurd same isCommon, ?_⟩
    intro _ _ _ gaps''
    rw [(sideGaps_unique gaps'' gaps (ne_nil_of_mem mem)).1]
    exact walked

variable {interval : ReachabilityInterval}

/-- A chain node above the reindex root gives up a part of its gap. -/
theorem hopped_of_stage (notRoot : current ≠ root) (ok : ContextOk shape rc)
    (walking : Walking shape genesis root spared slack side current own span0
      (spanOf rc.store))
    (atMost : offset.toNat ≤ own) (remains : own - offset.toNat ≤ slack)
    (enough : current ∈ shape.children common →
      offset.toNat = size shape.children taker)
    (read : rc.store.interval current = .ok interval) (stages : rc.store.stageInterval current
      (side.reclaim.shrink interval offset) = .ok store) :
    Meets (Hopped shape genesis root taker common spared
        slack side current offset.toNat span0)
      (offsetSiblings manager rounds side.reclaim { rc with store }
        taker current offset) := by
  have tree := short.tree
  have inTree := short.aboveIn.trans below
  have bounds := walking.nested.bounds inTree
  rcases walking.here notRoot with ⟨⟨other, gaps, -⟩, -⟩
  have less := offset_lt_width gaps atMost
  rcases stageInterval_ok stages with ⟨sameShape, newSpan⟩
  have isSpan := interval_ok read
  have shrinks : (side.reclaim.shrink interval offset).span =
      side.shrunk (spanOf rc.store current) offset.toNat := by
    rw [← isSpan]
    exact Side.span_shrink (by rw [isSpan]; exact bounds.2.2) (by rw [isSpan]; exact less)
  rw [shrinks] at newSpan
  have atNode : spanOf store current = side.shrunk (spanOf rc.store current) offset.toNat := by
    rw [newSpan, Function.update_self]
  have apart : ∀ other, other ≠ current → spanOf store other = spanOf rc.store other := by
    intro other ne
    rw [newSpan, Function.update_of_ne ne]
  have alike : ∀ node, shape.Below current node → ∀ child ∈ shape.children node,
        spanOf store child = spanOf rc.store child := by
    intro node under child mem
    refine apart child ?_
    rintro rfl
    exact tree.not_below mem under
  have staged : ContextOk shape { rc with store } := ⟨sameShape.trans ok.isShape, ok.cached⟩
  refine hopped_of_shrunk short onSide below notCommon onChain staged enough
    walking ⟨atNode, ?_, ?_⟩ (fun _ => apart) (fun _ => ⟨atMost, remains⟩) less
  · intro other beyond
    refine apart other ?_
    rintro rfl
    exact beyond (.refl other)
  · intro other under
    by_cases isCurrent : other = current
    · rw [isCurrent]
      exact encloses_of_sideGaps (sideGaps_shrunk gaps atMost atNode
        (alike current (.refl current)))
    · exact (walking.nested.encloses other (inTree.trans under)
        (none_spared_of_chain short below notCommon onChain under)).congr
        (apart other isCurrent) (alike other under)

/-- The reindex root gives up numbers and hands the rest out again. -/
theorem hopped_of_root (isRoot : current = root) (ok : ContextOk shape rc)
    (isSpan : spanOf rc.store = span0) (room : offset.toNat + size shape.children current ≤
    (span0 current).width) (enough : current ∈ shape.children common →
    offset.toNat = size shape.children taker) (read : rc.store.interval current = .ok interval) :
    Meets (fun next => Meets (Hopped shape genesis root taker common spared slack side current
    offset.toNat span0) (offsetSiblings manager rounds side.reclaim next taker current offset))
    (stageAndPropagate manager rounds rc current (side.reclaim.shrink interval offset)) := by
  have tree := short.tree
  have inTree := short.aboveIn.trans below
  have bounds := short.indexed.bounds inTree
  have pos := tree.size_pos inTree
  have less : offset.toNat < (span0 current).width := by omega
  have isInterval := interval_ok read
  rw [isSpan] at isInterval
  have shrinks : (side.reclaim.shrink interval offset).span =
      side.shrunk (span0 current) offset.toNat := by
    rw [← isInterval]
    exact Side.span_shrink (by rw [isInterval]; exact bounds.2.2) (by rw [isInterval]; exact less)
  refine (stageSpan_meets tree short.bound ok inTree (by
    rw [shrinks]
    exact Side.roomy_shrunk bounds.1 bounds.2.2 room)).imp ?_
  rintro next ⟨nextOk, placed⟩
  rw [shrinks, isSpan] at placed
  have walking : Walking shape genesis root spared slack side current 0 span0
      span0 :=
    walking_of short.indexed inTree onChain fun ne => absurd isRoot ne
  exact hopped_of_shrunk short onSide below notCommon onChain nextOk enough walking ⟨placed.atNode,
    placed.outside, placed.encloses⟩ (fun ne => absurd isRoot ne) (fun ne => absurd isRoot ne) less

end Hopping

/-! ## The two loops -/

/-- The slack read beside a chain node is its gap on the side. -/
theorem remainingSlack_ok (isShape : shapeOf store = shape)
    (nested : Nested shape.children genesis spared (spanOf store))
    (inTree : shape.Below genesis node) (inner : shape.children node ≠ [])
    (gaps : side.SideGaps (spanOf store) shape.children node own other) {slackBeside : UInt64}
    (isOk : side.reclaim.remainingSlack store node = .ok slackBeside) :
    slackBeside.toNat = own := by
  have bounds := nested.bounds inTree
  cases side with
  | before =>
    rcases gaps with ⟨stop, tiles, atEnd⟩
    rw [remainingSlackBefore_ok isShape tiles bounds.1 bounds.2.2
      (Nat.le_add_right _ _) (by omega) inner isOk]
    exact Nat.add_sub_cancel_left _ _
  | after =>
    rcases gaps with ⟨stop, tiles, atEnd⟩
    rw [remainingSlackAfter_ok isShape tiles bounds.1 bounds.2.2
      (Nat.le_add_right _ _) (by omega) inner isOk]
    omega

theorem harmless_remainingSlack (side : Side) (store : ReachabilityDataStore)
    (node : DomainHash) : Harmless (side.reclaim.remainingSlack store node) := by
  cases side with
  | before => exact (harmless_remainingBefore store node).bind fun _ => trivial
  | after => exact (harmless_remainingAfter store node).bind fun _ => trivial

section Loops

variable (short : ShortOfRoom shape genesis root taker common spared slack span0)
  (onSide : OnSide shape root taker common side) {required : UInt64} (isRequired : required.toNat =
    size shape.children taker) (isSlack : manager.reindexSlack.toNat = slack)

include short onSide

theorem reclaimDown_step {current : DomainHash} {offset own other : Nat}
    {pathSlackAlloc : UInt64} (hopped : Hopped shape genesis root taker common spared slack side
    child offset span0 rc) (mem : child ∈ shape.children current)
    (below : shape.Below common current) (notCommon : current ≠ common)
    (childOnChain : shape.Below child root) (gaps : side.SideGaps span0 shape.children current own
    other) (atMost : pathSlackAlloc.toNat ≤ own + offset)
    (atMostSlack : pathSlackAlloc.toNat ≤ slack) (enough : current ∈ shape.children common →
    own + offset - pathSlackAlloc.toNat = size shape.children taker) {steps : Nat}
    (goesOn : ∀ steps' next, Hopped shape genesis root taker common spared slack side current
    (own + offset - pathSlackAlloc.toNat) span0 next →
    Meets post (reclaimDown manager rounds side.reclaim taker common pathSlackAlloc steps' next
    current)) : Meets post (reclaimDown manager rounds side.reclaim taker common pathSlackAlloc
    steps rc child) := by
  have tree := short.tree
  have inTree := short.aboveIn.trans below
  have onChain := (Below.of_child mem).trans childOnChain
  have notRoot : current ≠ root := by
    rintro rfl
    exact tree.not_below mem childOnChain
  rcases (hopped current mem).2 notCommon own other gaps with ⟨ok, walking⟩
  cases steps with
  | zero => exact not_false
  | succ steps =>
    refine (harmless_parent rc.store child).read fun _ readParent => ?_
    have link := parent_ok ok.isShape readParent
    rw [tree.mem_children.mp mem] at link
    cases link
    dsimp only
    rw [if_neg notCommon]
    refine (harmless_span rc.store current).read fun _ read => ?_
    refine (harmless_remainingSlack side rc.store current).read fun slackBeside readSlack => ?_
    rcases walking.here notRoot with ⟨⟨_, gaps', -⟩, -⟩
    have isSlackBeside := remainingSlack_ok ok.isShape walking.nested inTree
      (ne_nil_of_mem mem) gaps' readSlack
    have isOffset : (slackBeside - pathSlackAlloc).toNat = own + offset - pathSlackAlloc.toNat := by
      rw [toNat_sub_of_le (by omega), isSlackBeside]
    refine (harmless_stage rc.store current _).read fun store stages => ?_
    refine .bind (hopped_of_stage short onSide below notCommon onChain notRoot ok walking (by omega)
      (by omega) (fun member => isOffset.trans (enough member)) read stages) ?_
    intro next isHopped
    rw [isOffset] at isHopped
    exact goesOn steps next isHopped

include isRequired isSlack

/--
The second loop comes back to every node the first one passed, with the
numbers that were missing there and the slack to be left at the nodes passed
before.
-/
theorem reclaimUp_meets (ok : ContextOk shape rc) (isSpan : spanOf rc.store = span0) (steps : Nat)
    {current : DomainHash} {slackSum pathLen : UInt64} (below : shape.Below common current)
    (notCommon : current ≠ common) (onChain : shape.Below current root)
    (few : slackSum.toNat < required.toNat) (path : pathLen.toNat + size shape.children current ≤
    size shape.children genesis) (first : current ∈ shape.children common → slackSum.toNat = 0 ∧
    pathLen.toNat = 0) : Meets (fun result => result.2.2.toNat ≤ slack ∧
    ∀ downSteps (post : ReindexContext → Prop),
    (∀ steps' next offset, offset + slackSum.toNat = required.toNat + result.2.2.toNat *
    pathLen.toNat → Hopped shape genesis root taker common spared slack side current offset span0
    next → Meets post (reclaimDown manager rounds side.reclaim taker common result.2.2 steps' next
    current)) → Meets post (reclaimDown manager rounds side.reclaim taker common result.2.2
    downSteps result.1 result.2.1)) (reclaimUp manager rounds side.reclaim taker root required steps
    rc current slackSum pathLen) := by
  subst isSpan
  have tree := short.tree
  have inTree {node : DomainHash} (under : shape.Below common node) := short.aboveIn.trans under
  have requiredAtMost := tree.size_le_below (.refl genesis)
    (short.aboveIn.trans (.of_child short.member))
  have fits := short.ample.mul_le le_rfl
  have slackAtMost : slack ≤ slack * size shape.children genesis :=
    Nat.le_mul_of_pos_right _ (tree.size_pos (.refl genesis))
  induction steps generalizing current slackSum pathLen with
  | zero => exact not_false
  | succ steps ih =>
    have scaled : slack * pathLen.toNat ≤ slack * size shape.children genesis :=
      Nat.mul_le_mul_left _ (by omega)
    rw [reclaimUp]
    by_cases isRoot : current = root
    · rw [if_pos isRoot]
      refine (harmless_span rc.store current).read fun interval read => ?_
      have wide := short.indexed.wide tree short.ample (inTree below) onChain
      have isOffset : (required + manager.reindexSlack * pathLen -
          slackSum).toNat = required.toNat + slack * pathLen.toNat - slackSum.toNat := by
        have product : (manager.reindexSlack * pathLen).toNat = slack * pathLen.toNat := by
          rw [UInt64.toNat_mul, isSlack, Nat.mod_eq_of_lt (by omega)]
        have sum : (required + manager.reindexSlack * pathLen).toNat =
            required.toNat + slack * pathLen.toNat := by
          rw [toNat_add_of_lt (by omega), product]
        rw [toNat_sub_of_le (by omega), sum]
      refine .bind (hopped_of_root short onSide below notCommon onChain
        isRoot ok rfl ?_ ?_ read) fun _ hops => ?_
      · rw [isOffset]
        omega
      · intro member
        rcases first member with ⟨noSlack, noPath⟩
        rw [isOffset, noSlack, noPath, isRequired]
        omega
      · refine .bind hops fun hopped isHopped => ?_
        refine ⟨isSlack.le, fun downSteps post goesOn => ?_⟩
        refine goesOn downSteps hopped _ ?_ isHopped
        rw [isOffset]
        dsimp only
        rw [isSlack]
        omega
    · rw [if_neg isRoot]
      refine (harmless_remainingSlack side rc.store current).read fun slackBeside readSlack => ?_
      have inner : shape.children current ≠ [] := by
        intro isLeaf
        rcases onChain.cases_child with same | ⟨child, mem, -⟩
        · exact isRoot same
        · rw [isLeaf] at mem
          cases mem
      have tight := short.indexed.tight current (inTree below) onChain isRoot
      rcases sideGaps_of_tight side tight with ⟨own, other, gaps, _, -⟩
      have isSlackBeside := remainingSlack_ok ok.isShape
        short.indexed.toNested (inTree below) inner gaps readSlack
      have sum : (slackSum + slackBeside).toNat = slackSum.toNat + own := by
        rw [toNat_add_of_lt (by omega), isSlackBeside]
      dsimp only
      by_cases enough : slackSum + slackBeside ≥ required
      · rw [if_pos enough]
        rw [ge_iff_le, UInt64.le_iff_toNat_le, sum] at enough
        refine (harmless_span rc.store current).read fun interval read => ?_
        refine (harmless_stage rc.store current _).read fun store stages => ?_
        have isOffset : (slackBeside - (slackSum + slackBeside - required)).toNat =
            required.toNat - slackSum.toNat := by
          have excess : (slackSum + slackBeside - required).toNat =
              slackSum.toNat + own - required.toNat := by
            rw [toNat_sub_of_le (by omega), sum]
          rw [toNat_sub_of_le (by omega), excess]
          omega
        have walking := walking_of short.indexed (inTree below) onChain fun _ => ⟨other, gaps⟩
        refine .bind (hopped_of_stage short onSide below notCommon
          onChain isRoot ok walking (by omega) (by omega) ?_ read stages) fun hopped isHopped => ?_
        · intro member
          rw [isOffset, (first member).1, isRequired]
          exact Nat.sub_zero _
        · refine ⟨Nat.zero_le _, fun downSteps post goesOn => ?_⟩
          refine goesOn downSteps hopped _ ?_ isHopped
          rw [isOffset]
          dsimp only
          rw [UInt64.toNat_zero]
          omega
      · rw [if_neg enough]
        rw [ge_iff_le, UInt64.le_iff_toNat_le, sum] at enough
        refine (harmless_findNext rc.store root current).read fun next finds => ?_
        rcases short.indexed.findNextAncestor ok.isShape (inTree below) onChain isRoot
          (fun child isChild => none_spared_of_chain short below notCommon onChain
          (.of_child (dropLast_subset _ isChild)))
          (none_spared_of_chain short below notCommon onChain onChain) finds with ⟨mem, nextOnChain⟩
        have nextNotCommon : next ≠ common := by
          rintro rfl
          exact tree.not_below mem below
        have smaller := tree.size_child_lt mem
        have longer : (pathLen + 1).toNat = pathLen.toNat + 1 := by
          rw [toNat_add_of_lt (by rw [UInt64.toNat_one]; omega), UInt64.toNat_one]
        refine (ih (below.trans (.of_child mem)) nextNotCommon
          nextOnChain (by omega) (by rw [longer]; omega) ?_).imp ?_
        · exact fun member => absurd (tree.parent_unique mem member) notCommon
        · rintro result ⟨leaves, comesBack⟩
          refine ⟨leaves, fun downSteps post goesOn => ?_⟩
          refine comesBack downSteps post ?_
          intro steps' hopped offset carried isHopped
          rw [longer, Nat.mul_add] at carried
          refine reclaimDown_step short onSide isHopped mem below
            notCommon nextOnChain gaps (by omega) leaves ?_ ?_
          · intro member
            rcases first member with ⟨noSlack, noPath⟩
            rw [noPath] at carried
            omega
          · intro steps'' last isHopped'
            exact goesOn steps'' last _ (by omega) isHopped'

/-- Reclaiming from the chosen child gives the node its room. -/
theorem reclaimInterval_meets (ok : ContextOk shape rc) (isSpan : spanOf rc.store = span0)
    {chosen : DomainHash} (mem : chosen ∈ shape.children common)
    (onChain : shape.Below chosen root) : Meets (fun rc' => ContextOk shape rc' ∧
    Indexed shape.children genesis (fun _ => False) slack root (spanOf rc'.store))
    (reclaimInterval manager rounds side.reclaim rc taker common chosen root required) := by
  have tree := short.tree
  have pos := tree.size_pos (short.aboveIn.trans (.of_child short.member))
  refine .bind (reclaimUp_meets short onSide isRequired isSlack ok isSpan rounds (.of_child mem)
    (tree.child_ne mem) onChain ?_ ?_ fun _ => ⟨UInt64.toNat_zero, UInt64.toNat_zero⟩) ?_
  · rw [isRequired]
    exact pos
  · rw [UInt64.toNat_zero, zero_add]
    exact tree.size_le_below (.refl genesis) (short.aboveIn.trans (.of_child mem))
  · rintro ⟨_, _, _⟩ ⟨-, comesBack⟩
    refine comesBack rounds _ ?_
    intro steps next _ carried hopped
    rw [isRequired] at carried
    rcases (hopped common mem).1 rfl carried with ⟨nextOk, index⟩
    cases steps with
    | zero => exact not_false
    | succ steps =>
      refine (harmless_parent next.store chosen).read fun _ readParent => ?_
      have link := parent_ok nextOk.isShape readParent
      rw [tree.mem_children.mp mem] at link
      cases link
      dsimp only
      rw [if_pos rfl]
      exact ⟨nextOk, index⟩

end Loops

/-! ## Choosing the side -/

section Choice

variable (short : ShortOfRoom shape genesis root taker common spared slack (spanOf rc.store))
  (onlyLast : ∀ child ∈ (shape.children common).dropLast, ¬ spared child) {chosen : DomainHash}
  (mem : chosen ∈ shape.children common) (onChain : shape.Below chosen root)

include short onlyLast mem onChain

/-- The starts tell on which side of the chain the node is. -/
theorem onSide_of_start {front back : List DomainHash}
    (split : shape.children common = front ++ chosen :: back) :
    ((spanOf rc.store taker).lo < (spanOf rc.store chosen).lo → taker ∈ front) ∧
    (¬ (spanOf rc.store taker).lo < (spanOf rc.store chosen).lo → taker ∈ back) := by
  have ne : taker ≠ chosen := by
    rintro rfl
    exact short.beside onChain
  have beside := mem_append.mp (mem_siblings split short.member ne)
  rcases short.indexed.encloses_inner short.aboveIn (ne_nil_of_mem mem) with ⟨_, _, -, tiles, -⟩
  rw [split] at tiles onlyLast
  rcases tiles_append.mp tiles with ⟨_, left, _, _, right⟩
  constructor
  · intro _
    refine beside.resolve_right fun inBack => ?_
    have bounds := right.bounds inBack
    omega
  · intro notBefore
    refine beside.resolve_left fun inFront => notBefore ?_
    have bounds := left.bounds inFront
    have notSpared : ¬ spared taker := by
      refine onlyLast taker ?_
      rw [dropLast_append_cons]
      exact mem_append_left _ inFront
    have nonempty := (short.indexed.encloses taker
      (short.aboveIn.trans (.of_child short.member)) notSpared).nonempty
    omega

end Choice

/-- A node beside the chain gets the room it is short of. -/
theorem reindexIntervalsEarlierThanRoot_meets (short : ShortOfRoom shape genesis root taker common
    spared slack (spanOf rc.store)) (onlyLast : ∀ child ∈ (shape.children common).dropLast,
    ¬ spared child) (isSlack : manager.reindexSlack.toNat = slack) {required : UInt64}
    (isRequired : required.toNat = size shape.children taker) (ok : ContextOk shape rc) :
    Meets (fun rc' => ContextOk shape rc' ∧ Indexed shape.children genesis (fun _ => False) slack
    root (spanOf rc'.store)) (reindexIntervalsEarlierThanRoot manager rounds rc taker root common
    required) := by
  have tree := short.tree
  refine (harmless_findNext rc.store root common).read fun chosen finds => ?_
  rcases short.indexed.findNextAncestor ok.isShape short.aboveIn short.onChain short.different
    onlyLast (fun isSpared => short.beside (short.isSpared root isSpared)) finds with ⟨mem, onChain⟩
  refine (harmless_span rc.store taker).read fun nodeInterval readNode => ?_
  refine (harmless_span rc.store chosen).read fun chosenInterval readChosen => ?_
  have nodeStart : nodeInterval.start.toNat = (spanOf rc.store taker).lo :=
    congrArg Span.lo (interval_ok readNode)
  have chosenStart : chosenInterval.start.toNat = (spanOf rc.store chosen).lo :=
    congrArg Span.lo (interval_ok readChosen)
  have sides := fun {child : DomainHash} (childOnChain : shape.Below child root)
      {front back : List DomainHash} (split : shape.children common = front ++ child :: back) => by
    have isChild := mem_of_split split
    have isChosen := tree.child_unique isChild mem childOnChain onChain
    rw [isChosen] at split
    exact onSide_of_start short onlyLast mem onChain split
  split_ifs with starts
  · rw [UInt64.lt_iff_toNat_lt, nodeStart, chosenStart] at starts
    have onSide : OnSide shape root taker common .before := fun _ childOnChain _ _ split =>
      mem_reverse.mpr ((sides childOnChain split).1 starts)
    exact reclaimInterval_meets short onSide isRequired isSlack ok rfl mem onChain
  · rw [UInt64.lt_iff_toNat_lt, nodeStart, chosenStart] at starts
    have onSide : OnSide shape root taker common .after :=
      fun _ childOnChain _ _ split => (sides childOnChain split).2 starts
    exact reclaimInterval_meets short onSide isRequired isSlack ok rfl mem onChain

end Htnd.Reachability.Reclaim
