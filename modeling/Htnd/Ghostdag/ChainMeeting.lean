import Htnd.Ghostdag.BlueScores
import Htnd.Lib.Fallible

/-!
# The latest common chain ancestor

`latestCommonChainAncestor` of `dagknight.go`.  Two selected chains are walked
in turns until one comes upon a block that the other has seen.  Selected
parents and meeting points are kept in a memo.
-/

namespace Htnd.Ghostdag.ChainMeeting

open Lib.Fallible Lib.RangeLoops Utxo.Entry Manager SelectedChain BlueScores
open List

structure DagKnightMemo where
  selectedParents : FiniteMap DomainHash DomainHash
  lcas : FiniteMap (DomainHash × DomainHash) DomainHash

variable (store : GHOSTDAGDataStore)

section

variable (memo : DagKnightMemo)

/-- A selected parent that is `nil` panics where it is used. -/
def selectedParent (block : DomainHash) : Except GhostdagError (DomainHash × DagKnightMemo) :=
  match memo.selectedParents.lookup block with
  | some parent => .ok (parent, memo)
  | none => do
    let data ← getData store block
    match data.selectedParent with
    | none => .error .nilHash
    | some parent => return (parent, { memo with
        selectedParents := memo.selectedParents.insert block parent })

/--
The loop of `chainMeetingPoint`, one half of its body a round: `x` takes a
step, and the two chains change places.
-/
def walkChains (memo : DagKnightMemo) : Nat → DomainHash → List DomainHash →
    DomainHash → List DomainHash → Except GhostdagError (DomainHash × DagKnightMemo)
  | 0, _, _, _, _ => .error .unfinished
  | rounds + 1, x, seenX, y, seenY =>
    if x = virtualGenesisBlockHash then
      if y = virtualGenesisBlockHash then .ok (x, memo)
      else walkChains memo rounds y seenY x seenX
    else do
      let (x, memo) ← selectedParent store memo x
      if x ∈ seenY then return (x, memo)
      else walkChains memo rounds y seenY x (x :: seenX)

def chainMeetingPoint (rounds : Nat) (a b : DomainHash) :
    Except GhostdagError (DomainHash × DagKnightMemo) :=
  if a = b then .ok (a, memo)
  else
    let key := if hashLess b a then (b, a) else (a, b)
    match memo.lcas.lookup key with
    | some lca => .ok (lca, memo)
    | none => do
      let (lca, memo) ← walkChains store memo rounds a [a] b [b]
      return (lca, { memo with lcas := memo.lcas.insert key lca })

def latestCommonChainAncestor (rounds : Nat) (P : List DomainHash) :
    Except GhostdagError (DomainHash × DagKnightMemo) :=
  match P with
  | [] => .error .noBlockHashes
  | first :: rest => rest.foldlM (fun (lca, memo) block =>
      chainMeetingPoint store memo rounds lca block) (first, memo)

end

/-- The chain of `lca` is what the chains of both share. -/
def Meet (a b lca : DomainHash) : Prop :=
  ∀ other, OnChain store a other ∧ OnChain store b other ↔ OnChain store lca other

/-- At most so many steps along the selected chain lead to the marker. -/
inductive ChainEnds : Nat → DomainHash → Prop
  | marker {steps : Nat} : ChainEnds steps virtualGenesisBlockHash
  | step {steps : Nat} {block parent : DomainHash} :
    SelectedParent store block parent → ChainEnds steps parent → ChainEnds (steps + 1) block

structure Sound (memo : DagKnightMemo) : Prop where
  parents : ∀ block parent, memo.selectedParents.lookup block = some parent →
    SelectedParent store block parent
  meets : ∀ key lca, memo.lcas.lookup key = some lca → Meet store key.1 key.2 lca

/-- The walk from `a` is at `x` and has seen the chain so far. -/
structure Walked (a x : DomainHash) (seen : List DomainHash) : Prop where
  here : x ∈ seen
  between : ∀ other ∈ seen, OnChain store a other ∧ OnChain store other x
  ahead : ∀ other, OnChain store a other → other ∈ seen ∨ OnChain store x other

variable {store : GHOSTDAGDataStore} {memo : DagKnightMemo}
  {a b x y block parent lca : DomainHash} {seenX seenY P : List DomainHash} {n m depth rounds : Nat}

theorem Meet.symm (meet : Meet store a b lca) : Meet store b a lca :=
  fun other => and_comm.trans (meet other)

theorem selectedParent_ok (sound : Sound store memo) (link : SelectedParent store block parent) :
    ∃ memo', selectedParent store memo block = .ok (parent, memo') ∧ Sound store memo' := by
  rw [selectedParent]
  cases isKept : memo.selectedParents.lookup block with
  | some kept =>
    rw [selected_unique (sound.parents block kept isKept) link]
    exact ⟨memo, rfl, sound⟩
  | none =>
    have isLink := link
    rcases link with ⟨data, found, chosen⟩
    rw [getData, found]
    dsimp only [Bind.bind, Except.bind]
    rw [chosen]
    refine ⟨_, rfl, fun other kept isKept => ?_, sound.meets⟩
    rw [insert_ite] at isKept
    split_ifs at isKept with same
    · cases isKept
      rwa [same]
    · exact sound.parents other kept isKept

/-- A block that is further along a chain is there already or comes later. -/
theorem onChain_step {other : DomainHash} (path : OnChain store x other)
    (link : SelectedParent store x parent) : x = other ∨ OnChain store parent other := by
  refine path.cases_head.imp_right ?_
  rintro ⟨_, link', path⟩
  rwa [selected_unique link link']

theorem Walked.step (walked : Walked store a x seenX) (link : SelectedParent store x parent) :
    Walked store a parent (parent :: seenX) where
  here := .head _
  between other isSeen := by
    rcases mem_cons.mp isSeen with rfl | isSeen
    · exact ⟨(walked.between x walked.here).1.tail link, .refl⟩
    · exact (walked.between other isSeen).imp_right (.tail · link)
  ahead other onChain := by
    rcases walked.ahead other onChain with isSeen | path
    · exact .inl (.tail parent isSeen)
    rcases onChain_step path link with rfl | path
    · exact .inl (.tail parent walked.here)
    · exact .inr path

/-- The first block that was seen on the other chain is where they meet. -/
theorem meet_of_seen (walkedA : Walked store a x seenX)
    (walkedB : Walked store b y seenY) (apart : seenX.Disjoint seenY)
    (link : SelectedParent store x parent) (isSeen : parent ∈ seenY) : Meet store a b parent := by
  rcases walkedB.between parent isSeen with ⟨fromB, toY⟩
  refine fun other => ⟨?_, fun path => ?_⟩
  · rintro ⟨onA, onB⟩
    rcases walkedB.ahead other onB with inY | path
    · rcases walkedA.ahead other onA with inX | path
      · exact absurd inY (apart inX)
      rcases onChain_step path link with rfl | path
      · exact absurd inY (apart walkedA.here)
      · exact path
    · exact toY.trans path
  · exact ⟨((walkedA.between x walkedA.here).1.tail link).trans path, fromB.trans path⟩

/--
One of two rounds takes a step, so the walks end: a step counts two, and a turn
at the marker one.
-/
theorem walkChains_ok (sound : Sound store memo) (walkedA : Walked store a x seenX)
    (walkedB : Walked store b y seenY) (apart : seenX.Disjoint seenY) (endsX : ChainEnds store n x)
    (endsY : ChainEnds store m y) (enough : 2 * (n + m) +
    (if x = virtualGenesisBlockHash then 1 else 0) < rounds) : ∃ lca memo',
    walkChains store memo rounds x seenX y seenY = .ok (lca, memo') ∧ Meet store a b lca ∧
    Sound store memo' := by
  induction rounds generalizing a b x y n m seenX seenY memo with
  | zero => omega
  | succ rounds ih =>
    rw [walkChains]
    split_ifs at enough ⊢ with atMarker bothThere
    · rw [atMarker, ← bothThere] at walkedA
      exact absurd walkedB.here (apart walkedA.here)
    · rcases ih sound walkedB walkedA apart.symm endsY endsX (by rw [if_neg bothThere]; omega) with
        ⟨lca, memo', walks, meet, sound'⟩
      exact ⟨lca, memo', walks, meet.symm, sound'⟩
    cases endsX with
    | marker => exact absurd rfl atMarker
    | @step _ _ parent link ends =>
      rcases selectedParent_ok sound link with ⟨memo', isNext, sound'⟩
      rw [ok_bind isNext]
      by_cases isSeen : parent ∈ seenY
      · exact ⟨parent, memo', if_pos isSeen, meet_of_seen walkedA walkedB apart link isSeen, sound'⟩
      rcases ih sound' walkedB (walkedA.step link) (disjoint_cons_right.mpr ⟨isSeen, apart.symm⟩)
        endsY ends (by split_ifs <;> omega) with ⟨lca, last, walks, meet, soundLast⟩
      exact ⟨lca, last, (if_neg isSeen).trans walks, meet.symm, soundLast⟩

theorem chainMeetingPoint_ok (sound : Sound store memo) (endsA : ChainEnds store depth a)
    (endsB : ChainEnds store depth b) (enough : 4 * depth + 1 < rounds) : ∃ lca memo',
    chainMeetingPoint store memo rounds a b = .ok (lca, memo') ∧ Meet store a b lca ∧
    Sound store memo' := by
  rw [chainMeetingPoint]
  by_cases same : a = b
  · refine ⟨a, memo, if_pos same, fun other => ?_, sound⟩
    rw [← same, and_self_iff]
  rw [if_neg same]
  have ofKey (lca) : (fun key => Meet store key.1 key.2 lca)
      (if hashLess b a then (b, a) else (a, b)) ↔ Meet store a b lca := by
    split_ifs
    · exact ⟨Meet.symm, Meet.symm⟩
    · exact .rfl
  generalize (if hashLess b a then (b, a) else (a, b)) = key at ofKey ⊢
  dsimp only
  cases isKept : memo.lcas.lookup key with
  | some lca => exact ⟨lca, memo, rfl, (ofKey lca).mp (sound.meets key lca isKept), sound⟩
  | none =>
    have start (c : DomainHash) : Walked store c c [c] := by
      refine ⟨.head _, fun other isSeen => ?_, fun _ => .inr⟩
      rw [mem_singleton.mp isSeen]
      exact ⟨.refl, .refl⟩
    have walksOn : 2 * (depth + depth) +
        (if a = virtualGenesisBlockHash then 1 else 0) < rounds := by
      split_ifs <;> omega
    rcases walkChains_ok sound (start a) (start b)
      (singleton_disjoint.mpr (mt mem_singleton.mp same)) endsA endsB walksOn
      with ⟨lca, memo', walks, meet, sound'⟩
    dsimp only
    rw [ok_bind walks]
    refine ⟨lca, _, rfl, meet, sound'.parents, fun other kept isKept => ?_⟩
    rw [insert_ite] at isKept
    split_ifs at isKept with isThis
    · cases isKept
      rw [isThis]
      exact (ofKey lca).mpr meet
    · exact sound'.meets other kept isKept

section

variable (noParent : ∀ parent, ¬ SelectedParent store virtualGenesisBlockHash parent)

include noParent

omit noParent in
theorem ChainEnds.succ (ends : ChainEnds store n a) : ChainEnds store (n + 1) a := by
  induction ends with
  | marker => exact .marker
  | step link _ ih => exact .step link ih

theorem ChainEnds.onChain (ends : ChainEnds store n a)
    (path : OnChain store a b) : ChainEnds store n b := by
  induction path with
  | refl => exact ends
  | tail _ link ih =>
    cases ih with
    | marker => exact absurd link (noParent _)
    | step link' ends' =>
      rw [selected_unique link link']
      exact ends'.succ

/-- A chain that ends does not come back. -/
theorem ChainEnds.antisymm (ends : ChainEnds store n a)
    (path : OnChain store a b) (back : OnChain store b a) : a = b := by
  induction ends generalizing b with
  | marker =>
    rcases path.cases_head with same | ⟨_, link, -⟩
    · exact same
    · exact absurd link (noParent _)
  | step link ends ih =>
    rcases onChain_step path link with same | path
    · exact same
    · exact (ih (path.trans back) (.single link)).symm.trans (ih path (back.tail link))

theorem commonAncestor_ok (sound : Sound store memo) (nonempty : P ≠ [])
    (ends : ∀ block ∈ P, ChainEnds store depth block) (enough : 4 * depth + 1 < rounds) :
    ∃ lca memo', latestCommonChainAncestor store memo rounds P = .ok (lca, memo') ∧
    ChainEnds store depth lca ∧ Sound store memo' ∧ ∀ other,
    (∀ block ∈ P, OnChain store block other) ↔ OnChain store lca other := by
  cases P with
  | nil => exact absurd rfl nonempty
  | cons first rest =>
    rw [forall_mem_cons] at ends
    have looped := @foldlM_ok _ _ _ (fun state block => chainMeetingPoint store state.2 rounds
        state.1 block) (fun left state => (ChainEnds store depth state.1 ∧ Sound store state.2 ∧
        ∀ block ∈ left, ChainEnds store depth block) ∧ ∀ other,
        (∀ block ∈ first :: rest, OnChain store block other) ↔ ∀ block ∈ state.1 :: left,
        OnChain store block other) ?_ rest (first, memo) ⟨⟨ends.1, sound, ends.2⟩, fun _ => .rfl⟩
    · rcases looped with ⟨⟨lca, memo'⟩, finds, ⟨ends, sound', -⟩, common⟩
      refine ⟨lca, memo', finds, ends, sound', fun other => ?_⟩
      rw [common other, forall_mem_singleton]
    · rintro block left ⟨a, memo⟩ ⟨⟨ends, sound, endsLeft⟩, common⟩
      rw [forall_mem_cons] at endsLeft
      rcases chainMeetingPoint_ok sound ends endsLeft.1 enough with
        ⟨lca, memo', finds, meet, sound'⟩
      refine ⟨(lca, memo'), finds, ⟨?_, sound', endsLeft.2⟩, fun other => ?_⟩
      · exact ends.onChain noParent ((meet lca).mpr .refl).1
      · rw [common other, forall_mem_cons, forall_mem_cons, ← and_assoc,
          meet other, forall_mem_cons]

end

/--
After any calls, the blocks on the chains of all of `P` are the chain of what is
returned, which is so the first of them, for every order of `P`.
-/
theorem latestCommonChainAncestor_first
    (noParent : ∀ parent, ¬ SelectedParent store virtualGenesisBlockHash parent)
    {calls : List (List DomainHash)} (areCalls : ∀ Q ∈ P :: calls, Q ≠ [] ∧ ∀ block ∈ Q,
      ChainEnds store depth block) (enough : 4 * depth + 1 < rounds) :
    ∃ memo lca, calls.foldlM (fun memo Q =>
        Prod.snd <$> latestCommonChainAncestor store memo rounds Q) ⟨∅, ∅⟩ = .ok memo ∧
      (∀ other, (∀ block ∈ P, OnChain store block other) ↔ OnChain store lca other) ∧
      ∀ P', P'.Perm P → ∃ memo',
        latestCommonChainAncestor store memo rounds P' = .ok (lca, memo') := by
  rw [forall_mem_cons] at areCalls
  rcases areCalls with ⟨⟨nonempty, ends⟩, areCalls⟩
  have called := @foldlM_ok _ _ _ (fun memo Q => Prod.snd <$> latestCommonChainAncestor store memo
      rounds Q) (fun left memo => Sound store memo ∧ ∀ Q ∈ left, Q ≠ [] ∧ ∀ block ∈ Q,
      ChainEnds store depth block) ?_ calls ⟨∅, ∅⟩ ⟨⟨nofun, nofun⟩, areCalls⟩
  rotate_left
  · rintro Q left memo ⟨sound, areLeft⟩
    rw [forall_mem_cons] at areLeft
    rcases commonAncestor_ok noParent sound areLeft.1.1 areLeft.1.2
      enough with ⟨_, memo', finds, -, sound', -⟩
    rw [finds]
    exact ⟨memo', rfl, sound', areLeft.2⟩
  rcases called with ⟨memo, called, sound, -⟩
  rcases commonAncestor_ok noParent sound nonempty ends enough with ⟨lca, _, -, endsLca, -, common⟩
  refine ⟨memo, lca, called, common, fun P' perm => ?_⟩
  rcases commonAncestor_ok noParent sound (fun empty => nonempty (empty ▸ perm).nil_eq.symm)
    (fun block isIn => ends block (perm.mem_iff.mp isIn)) enough with
    ⟨lca', memo', finds, -, -, common'⟩
  have same : ∀ other, OnChain store lca other ↔ OnChain store lca' other := by
    intro other
    rw [← common, ← common']
    exact forall_congr' fun block => imp_congr_left perm.mem_iff.symm
  rw [endsLca.antisymm noParent ((same lca').mpr .refl) ((same lca).mp .refl)]
  exact ⟨memo', finds⟩

/-- Two blocks over the virtual genesis, and a third over the second. -/
def forked : GHOSTDAGDataStore :=
  [(1, virtualGenesisBlockHash), (2, virtualGenesisBlockHash), (3, .filled 2)].foldl
    (fun store link => store.insert (.filled link.1) ⟨0, 0, 0, some link.2, [], [], ∅⟩) ∅

/-- After a call for the fork, the chains of the last two blocks meet. -/
theorem latestCommonChainAncestor_first_forked :
    ∃ memo, [[.filled 1, .filled 3]].foldlM (fun memo Q =>
        Prod.snd <$> latestCommonChainAncestor forked memo 10 Q) ⟨∅, ∅⟩ = .ok memo ∧
      ∀ P', P'.Perm [.filled 2, .filled 3] → ∃ memo',
        latestCommonChainAncestor forked memo 10 P' = .ok (.filled 2, memo') := by
  have up : SelectedParent forked (.filled 3) (.filled 2) := ⟨_, rfl, rfl⟩
  have ends : ∀ block ∈ [.filled 1, .filled 2, .filled 3], ChainEnds forked 2 block := by
    rw [forall_mem_cons, forall_mem_cons, forall_mem_singleton]
    exact ⟨.step ⟨_, rfl, rfl⟩ .marker, .step ⟨_, rfl, rfl⟩ .marker,
      .step up (.step ⟨_, rfl, rfl⟩ .marker)⟩
  have noParent : ∀ parent, ¬ SelectedParent forked virtualGenesisBlockHash parent := by
    rintro _ ⟨_, found, -⟩
    cases found
  have areCalls : ∀ Q ∈ [[.filled 2, .filled 3], [.filled 1, .filled 3]], Q ≠ [] ∧
      ∀ block ∈ Q, ChainEnds forked 2 block := by
    rw [forall_mem_cons, forall_mem_singleton]
    exact ⟨⟨by decide, fun block isIn => ends block (.tail _ isIn)⟩, by decide,
      fun block isIn => ends block (by simp_all; tauto)⟩
  rcases latestCommonChainAncestor_first noParent areCalls (by decide : 9 < 10) with
    ⟨memo, lca, called, common, returns⟩
  have isLca : .filled 2 = lca := by
    refine (ends _ (by decide)).antisymm noParent ((common lca).mpr .refl _ (.head _)) ?_
    refine (common _).mp (forall_mem_cons.mpr ⟨.refl, forall_mem_singleton.mpr (.single up)⟩)
  exact ⟨memo, called, isLca ▸ returns⟩

end Htnd.Ghostdag.ChainMeeting
