import Htnd.Ghostdag.Manager
import Htnd.Lib.BlockDag
import Htnd.Lib.Fallible

/-!
# UMC voting

The model of `UMCVoting` and of the cache that keeps its votes.  The key of a
vote is the digest of the sorted hashes of both sets and of four bytes of the
deficit, with nothing between the two sets.

If the second set is part of the first one, it begins where a hash returns.
As long as all votes are asked for in this way, the cache changes none.
-/

namespace Htnd.Ghostdag.Voting

open Lib.BlockDag Lib.Fallible Utxo.Entry Manager List

/-- What the votes are computed from. -/
structure VotingManager (Digest : Type) where
  children : DomainHash → Except GhostdagError (List DomainHash)
  digest : List UInt8 → Digest

/-- `umcVotingCache`: an LRU cache, the vote that was used last first. -/
abbrev VotingCache (Digest : Type) := List (Digest × Int)

def intersect (a b : List DomainHash) : List DomainHash := a.filter (· ∈ b)

/-- `sort.Slice` by `Less`. -/
def sortHashes (hashes : List DomainHash) : List DomainHash :=
  hashes.insertionSort fun hash other => hashLess other hash = false

/-- The bytes `makeUMCVotingKey` takes the digest of; `e` is cut to four. -/
def votingBytes (G U : List DomainHash) (e : Nat) : List UInt8 :=
  (sortHashes G ++ sortHashes U).flatMap (·.hashArray) ++
    [e >>> 24, e >>> 16, e >>> 8, e].map UInt8.ofNat

/-- Steps 3 and 4: the votes of `U` against the rest of `G`. -/
def decideVote (G U : List DomainHash) (e : Nat) (v : Int) : Int :=
  if v - ((G.length : Int) - U.length) + e ≥ 0 then 1 else -1

/-- The loop of `getFuture` over the children of one block. -/
def visitChildren (inG : DomainHash → Bool) : List DomainHash → List DomainHash → List DomainHash →
    List DomainHash × List DomainHash
  | [], visited, queue => (visited, queue)
  | child :: rest, visited, queue =>
    if inG child ∧ child ∉ visited
    then visitChildren inG rest (child :: visited) (queue ++ [child])
    else visitChildren inG rest visited queue

section Manager

variable {Digest : Type} (gm : VotingManager Digest) (e : Nat)

/-- The queue loop of `getFuture`. -/
def searchFuture (block : DomainHash) (inG : DomainHash → Bool) : Nat → List DomainHash →
    List DomainHash → List DomainHash → Except GhostdagError (List DomainHash)
  | _, _, [], future => .ok future
  | 0, _, _ :: _, _ => .error .unfinished
  | rounds + 1, visited, current :: queue, future => do
    let children ← gm.children current
    let (visited, queue) := visitChildren inG children visited queue
    searchFuture block inG rounds visited queue
      (if current = block then future else future ++ [current])

/-- `getFuture`; no block is visited twice. -/
def getFuture (block : DomainHash) (G : List DomainHash) : Except GhostdagError (List DomainHash) :=
  searchFuture gm block (· ∈ G) (G.length + 1) [block] [block] []

/-- The future of a block within a set. -/
def futureOf (G : List DomainHash) (block : DomainHash) : List DomainHash :=
  (getFuture gm block G).toOption.getD []

/-- `UMCVoting` without its cache, with the depth it may still go to. -/
def uncachedVote : Nat → List DomainHash → List DomainHash → Int
  | 0, _, _ => 0
  | depth + 1, G, U => decideVote G U e (U.map fun b =>
      uncachedVote depth (futureOf gm G b) (intersect U (futureOf gm G b))).sum

variable [DecidableEq Digest]

/-- A vote is kept, or used again; of more than 500 the last one goes. -/
def VotingCache.use (cache : VotingCache Digest) (key : Digest) (vote : Int) : VotingCache Digest :=
  ((key, vote) :: cache.filter (·.1 ≠ key)).take 500

/-- Step 2 for one block of `U`: its vote is asked for and added. -/
def addVote (ask : List DomainHash → List DomainHash → VotingCache Digest →
    Except GhostdagError (Int × VotingCache Digest)) (G U : List DomainHash)
    (state : Int × VotingCache Digest) (b : DomainHash) :
    Except GhostdagError (Int × VotingCache Digest) := do
  let futureB ← getFuture gm b G
  let (vote, cache) ← ask futureB (intersect U futureB) state.2
  return (state.1 + vote, cache)

/-- `UMCVoting`, with the depth it may still go to. -/
def umcVoting : Nat → List DomainHash → List DomainHash → VotingCache Digest →
      Except GhostdagError (Int × VotingCache Digest)
  | depth, G, U, cache =>
    let key := gm.digest (votingBytes G U e)
    match cache.lookup key, depth with
    | some vote, _ => .ok (vote, VotingCache.use cache key vote)
    | none, 0 => .error .unfinished
    | none, depth + 1 => do
      let (v, cache) ← U.foldlM (addVote gm (umcVoting depth) G U) (0, cache)
      let result := decideVote G U e v
      return (result, VotingCache.use cache key result)

end Manager

variable {Digest : Type} {gm : VotingManager Digest} {dag : Dag DomainHash}
  {G G' U U' : List DomainHash} {block : DomainHash} {e e' : Nat}

/-! ## The future within a set -/

/-- New blocks are visited once, and wait in the queue. -/
theorem visitChildren_eq {inG : DomainHash → Bool} {children seen queue : List DomainHash}
    (distinct : seen.Nodup) : ∃ new, visitChildren inG children seen queue = (new.reverse ++ seen,
    queue ++ new) ∧ (new.reverse ++ seen).Nodup ∧ ∀ child ∈ new, inG child := by
  induction children generalizing seen queue with
  | nil => exact ⟨[], by simp [visitChildren, distinct]⟩
  | cons child rest ih =>
    rw [visitChildren]
    split_ifs with isNew
    · rcases @ih _ (queue ++ [child]) (nodup_cons.mpr ⟨isNew.2, distinct⟩) with
        ⟨new, visits, nodup, areIn⟩
      exact ⟨child :: new, by simpa using visits, by simpa using nodup,
        forall_mem_cons.mpr ⟨isNew.1, areIn⟩⟩
    · exact ih distinct

theorem futureOf_perm (same : G.Perm G') : futureOf gm G block = futureOf gm G' block := by
  have sameSet : (fun hash => decide (hash ∈ G)) = fun hash => decide (hash ∈ G') := by
    simp only [same.mem_iff]
  rw [futureOf, futureOf, getFuture, getFuture, sameSet, same.length_eq]

/-- The manager knows the children of the blocks of a graph. -/
def KnowsChildren (gm : VotingManager Digest) (dag : Dag DomainHash) : Prop :=
  ∀ block ∈ nodes dag, ∃ children, gm.children block = .ok children ∧
    ∀ child, child ∈ children ↔ IsParent dag child block

/-- A query whose second set is part of the first one. -/
structure Query (dag : Dag DomainHash) (G U : List DomainHash) (e : Nat) : Prop where
  inDag : G ⊆ nodes dag
  distinct : G.Nodup
  isPart : U ⊆ G
  fits : e < 2 ^ 32

section Votes

variable (knows : KnowsChildren gm dag)

include knows

/-- The blocks in the future and in the queue have been visited in order. -/
theorem searchFuture_ok {future queue : List DomainHash} {rounds : Nat} (inDag : G ⊆ nodes dag)
    (distinct : (block :: (future ++ queue)).Nodup) (inside : future ++ queue ⊆ G)
    (enough : G.length ≤ future.length + rounds) : ∃ last,
    searchFuture gm block (· ∈ G) rounds (block :: (future ++ queue)).reverse queue future =
    .ok last ∧ (block :: last).Nodup ∧ last ⊆ G := by
  induction rounds generalizing future queue with
  | zero =>
    have fits := ((nodup_cons.mp distinct).2.subperm inside).length_le
    rw [length_append] at fits
    obtain rfl : queue = [] := length_eq_zero_iff.mp (by omega)
    rw [append_nil] at distinct inside
    exact ⟨future, rfl, distinct, inside⟩
  | succ rounds ih =>
    cases queue with
    | nil =>
      rw [append_nil] at distinct inside
      exact ⟨future, rfl, distinct, inside⟩
    | cons here queue =>
      have isIn : here ≠ block := by
        rintro rfl
        simp at distinct
      rcases knows here (inDag (inside (by simp))) with ⟨children, answer, -⟩
      rcases @visitChildren_eq (· ∈ G) children _ queue
        (nodup_reverse.mpr distinct) with ⟨new, visits, nodup, areIn⟩
      have order : new.reverse ++ (block :: (future ++ here :: queue)).reverse =
            (block :: (future ++ [here] ++ (queue ++ new))).reverse := by
        simp
      rw [order] at visits nodup
      rw [searchFuture, ok_bind answer, visits]
      rw [if_neg isIn]
      refine ih (nodup_reverse.mp nodup) ?_ ?_
      · simp only [append_assoc, singleton_append]
        rw [← cons_append, ← append_assoc]
        exact append_subset.mpr ⟨inside, fun hash isNew => of_decide_eq_true (areIn hash isNew)⟩
      · rw [length_append, length_singleton]
        omega

theorem getFuture_ok (inDag : G ⊆ nodes dag) (blockIn : block ∈ nodes dag) : getFuture gm block G =
    .ok (futureOf gm G block) ∧ (block :: futureOf gm G block).Nodup ∧ futureOf gm G block ⊆ G := by
  rcases knows block blockIn with ⟨children, answer, -⟩
  rcases @visitChildren_eq (· ∈ G) children [block] []
    (nodup_singleton block) with ⟨new, visits, nodup, areIn⟩
  have order : new.reverse ++ [block] = (block :: ([] ++ new)).reverse := by simp
  rw [order] at visits nodup
  have enough : G.length ≤ ([] : List DomainHash).length + G.length := by simp
  rcases searchFuture_ok knows inDag (nodup_reverse.mp nodup)
    (fun hash isNew => of_decide_eq_true (areIn hash isNew)) enough with ⟨future, found, facts⟩
  have isFuture : getFuture gm block G = .ok future := by
    rw [getFuture, searchFuture, ok_bind answer, visits]
    rw [if_pos rfl]
    exact found
  rw [futureOf, isFuture]
  exact ⟨rfl, facts⟩

/-! ## The vote on two sets -/

/-- The vote of one block is asked for within its future. -/
theorem Query.inner (query : Query dag G U e) (isBlock : block ∈ U) :
    Query dag (futureOf gm G block) (intersect U (futureOf gm G block)) e ∧
    (intersect U (futureOf gm G block)).length < U.length := by
  rcases getFuture_ok knows query.inDag (query.inDag (query.isPart isBlock)) with ⟨-, nodup, inside⟩
  rcases nodup_cons.mp nodup with ⟨isOutside, nodup⟩
  refine ⟨⟨List.Subset.trans inside query.inDag, nodup, ?_, query.fits⟩,
    length_filter_lt_length_iff_exists.mpr ⟨block, isBlock, by simpa using isOutside⟩⟩
  exact fun _ kept => of_decide_eq_true (mem_filter.mp kept).2

/-- Neither the order of the hashes nor the depth matters. -/
theorem uncachedVote_perm {depth depth' : Nat} (query : Query dag G U e) (sameG : G.Perm G')
    (sameU : U.Perm U') (enough : U.length < depth) (enough' : U.length < depth') :
    uncachedVote gm e depth G U = uncachedVote gm e depth' G' U' := by
  induction depth generalizing depth' G G' U U' with
  | zero => omega
  | succ depth ih =>
    obtain ⟨depth', rfl⟩ := Nat.exists_eq_add_one.mpr (Nat.zero_lt_of_lt enough')
    have votes : (U.map fun b => uncachedVote gm e depth (futureOf gm G b)
        (intersect U (futureOf gm G b))) = U.map fun b => uncachedVote gm e depth'
        (futureOf gm G' b) (intersect U' (futureOf gm G' b)) := by
      refine map_congr_left fun b isBlock => ?_
      rcases query.inner knows isBlock with ⟨inner, _⟩
      rw [← futureOf_perm sameG]
      exact ih inner (.refl _) (sameU.filter _) (by omega) (by omega)
    rw [uncachedVote, uncachedVote, votes, (sameU.map _).sum_eq, decideVote,
      decideVote, sameG.length_eq, sameU.length_eq]

end Votes

/-! ## Keys -/

theorem flatMap_inj {hashes others : List DomainHash}
    (same : hashes.flatMap (·.hashArray) = others.flatMap (·.hashArray)) : hashes = others := by
  have sizes : ∀ list : List DomainHash, (list.map (·.hashArray)).map List.length =
      List.replicate list.length 32 := by
    intro list
    rw [map_map]
    exact map_eq_replicate_iff.mpr fun hash _ => hash.length_eq
  have count : hashes.length = others.length := by
    have lengths := congrArg List.length same
    simp only [length_flatMap, DomainHash.length_eq] at lengths
    simpa using lengths
  have arrays := eq_iff_flatten_eq.mpr ⟨same, (sizes hashes).trans (count ▸ (sizes others).symm)⟩
  refine map_injective_iff.mpr ?_ arrays
  rintro ⟨hash, _⟩ ⟨_, _⟩ rfl
  rfl

/-- A second list that is part of the first one begins where a hash returns. -/
theorem append_inj_of_subset {A A' B B' : List DomainHash} (same : A ++ B = A' ++ B')
    (distinct : A.Nodup) (distinct' : A'.Nodup) (isPart : B ⊆ A) (isPart' : B' ⊆ A') : A = A' := by
  have noMore : ∀ {A C : List DomainHash}, (A ++ C).Nodup → C ⊆ A → A ++ C = A := by
    intro A C nodup areIn
    cases C with
    | nil => exact append_nil A
    | cons hash rest =>
      exact absurd rfl ((nodup_append.mp nodup).2.2 hash (areIn (.head _)) hash (.head _))
  rcases append_eq_append_iff.mp same with ⟨C, rfl, rfl⟩ | ⟨C, rfl, rfl⟩
  · exact (noMore distinct' (append_subset.mp isPart).1).symm
  · exact noMore distinct (append_subset.mp isPart').1

theorem votingBytes_inj (query : Query dag G U e) (query' : Query dag G' U' e')
    (same : votingBytes G U e = votingBytes G' U' e') : G.Perm G' ∧ U.Perm U' ∧ e = e' := by
  have sorted : ∀ hashes, (sortHashes hashes).Perm hashes :=
    fun hashes => perm_insertionSort _ hashes
  have isPart : ∀ {G U : List DomainHash}, U ⊆ G → sortHashes U ⊆ sortHashes G :=
      fun areIn _ isHash => (sorted _).mem_iff.mpr (areIn ((sorted _).mem_iff.mp isHash))
  rcases append_inj' same rfl with ⟨hashes, bytes⟩
  have lists := flatMap_inj hashes
  have first := append_inj_of_subset lists ((sorted G).nodup_iff.mpr query.distinct)
    ((sorted G').nodup_iff.mpr query'.distinct) (isPart query.isPart) (isPart query'.isPart)
  rw [first] at lists
  have second := append_cancel_left lists
  refine ⟨(sorted G).symm.trans (first ▸ sorted G'), (sorted U).symm.trans (second ▸ sorted U'), ?_⟩
  have fits := query.fits
  have fits' := query'.fits
  simp only [map_cons, List.cons.injEq, ← UInt8.toNat_inj, UInt8.toNat_ofNat'] at bytes
  omega

/-! ## The cache -/

variable [DecidableEq Digest] {cache : VotingCache Digest}

/-- What is kept for a query is its vote. -/
def Sound (gm : VotingManager Digest) (dag : Dag DomainHash) (cache : VotingCache Digest) : Prop :=
  ∀ {G U e vote}, Query dag G U e → (gm.digest (votingBytes G U e), vote) ∈ cache →
    vote = uncachedVote gm e (U.length + 1) G U

section Cached

variable (knows : KnowsChildren gm dag) (injective : Function.Injective gm.digest)

include knows injective

theorem Sound.use (sound : Sound gm dag cache) (query : Query dag G U e) :
    Sound gm dag (VotingCache.use cache (gm.digest (votingBytes G U e))
    (uncachedVote gm e (U.length + 1) G U)) := by
  intro _ _ _ _ query' isVote
  rcases mem_cons.mp (mem_of_mem_take isVote) with same | old
  · rcases Prod.mk.inj same with ⟨keys, rfl⟩
    rcases votingBytes_inj query query' (injective keys.symm) with ⟨sameG, sameU, rfl⟩
    exact uncachedVote_perm knows query sameG sameU (lt_add_one _) (sameU.length_eq ▸ lt_add_one _)
  · exact sound query' (mem_filter.mp old).1

theorem umcVoting_eq {depth : Nat} (sound : Sound gm dag cache) (query : Query dag G U e)
    (enough : U.length < depth) : ∃ last, umcVoting gm e depth G U cache =
    .ok (uncachedVote gm e (U.length + 1) G U, last) ∧ Sound gm dag last := by
  induction depth generalizing G U cache with
  | zero => omega
  | succ depth ih =>
    unfold umcVoting
    cases found : cache.lookup (gm.digest (votingBytes G U e)) with
    | some vote =>
      rcases lookup_eq_some_iff.mp found with ⟨_, last, rfl, -⟩
      obtain rfl : vote = uncachedVote gm e (U.length + 1) G U :=
        sound query (mem_append_right _ (.head _))
      simp only [found]
      exact ⟨_, rfl, sound.use knows injective query⟩
    | none =>
      let voteOn := fun b => uncachedVote gm e U.length (futureOf gm G b)
        (intersect U (futureOf gm G b))
      let counting : List DomainHash → Int × VotingCache Digest →
        Prop := fun rest state => rest ⊆ U ∧ state.1 + (rest.map voteOn).sum = (U.map voteOn).sum ∧
        Sound gm dag state.2
      have adds : ∀ b rest state, counting (b :: rest) state → ∃ next,
          addVote gm (umcVoting gm e depth) G U state b = .ok next ∧ counting rest next := by
        rintro b rest ⟨v, cache⟩ ⟨areIn, isSum, sound⟩
        have isIn : b ∈ U := areIn (.head _)
        have isFuture := (getFuture_ok knows query.inDag (query.inDag (query.isPart isIn))).1
        rcases query.inner knows isIn with ⟨inner, less⟩
        rcases ih sound inner (by omega) with ⟨next, voted, nextSound⟩
        rw [uncachedVote_perm knows inner (.refl _) (.refl _) (lt_add_one _) less] at voted
        refine ⟨(v + voteOn b, next), ?_, subset_of_cons_subset areIn, ?_,
          nextSound⟩
        · rw [addVote, ok_bind isFuture, ok_bind voted]
          rfl
        · rw [← isSum, map_cons, sum_cons, add_assoc]
      have counts : counting U (0, cache) := ⟨.refl U, zero_add _, sound⟩
      rcases foldlM_ok counting adds counts with ⟨⟨v, last⟩, counted, -, isSum, lastSound⟩
      have value : v = (U.map voteOn).sum := by simpa using isSum
      simp only [found]
      rw [ok_bind counted, value]
      exact ⟨_, rfl, lastSound.use knows injective query⟩

end Cached

/-- The caches left by queries, from the empty one on. -/
inductive Asked (gm : VotingManager Digest) (dag : Dag DomainHash) : VotingCache Digest → Prop where
  | fresh : Asked gm dag []
  | call {cache last : VotingCache Digest} {G U : List DomainHash} {e : Nat}
      {vote : Int} (asked : Asked gm dag cache) (query : Query dag G U e)
      (ran : umcVoting gm e (U.length + 1) G U cache = .ok (vote, last)) : Asked gm dag last

/-- If all queries are such, the cache changes no vote. -/
theorem umcVoting_uncached (knows : KnowsChildren gm dag)
    (injective : Function.Injective gm.digest) (asked : Asked gm dag cache)
    (query : Query dag G U e) : ∃ last, umcVoting gm e (U.length + 1) G U cache =
      .ok (uncachedVote gm e (U.length + 1) G U, last) := by
  have sound : Sound gm dag cache := by
    induction asked with
    | fresh => exact nofun
    | call _ query ran ih =>
      rcases umcVoting_eq knows injective ih query (lt_add_one _) with ⟨last, voted, sound⟩
      rw [voted] at ran
      cases ran
      exact sound
  rcases umcVoting_eq knows injective sound query (lt_add_one _) with ⟨last, voted, -⟩
  exact ⟨last, voted⟩

/-- Blocks without links; the digest is the byte string itself. -/
def unlinked : VotingManager (List UInt8) := ⟨fun _ => .ok [], id⟩

def twoBlocks : Dag DomainHash := [(.filled 1, []), (.filled 2, [])]

/-- A second query, with the votes of the first in the cache. -/
theorem umcVoting_uncached_twoBlocks : ∃ cache last,
    umcVoting unlinked 1 2 (nodes twoBlocks) [.filled 1] [] =
      .ok (uncachedVote unlinked 1 2 (nodes twoBlocks) [.filled 1], cache) ∧
    umcVoting unlinked 1 2 (nodes twoBlocks) [.filled 2] cache =
      .ok (uncachedVote unlinked 1 2 (nodes twoBlocks) [.filled 2], last) := by
  have noLink : ∀ child parent, ¬ IsParent twoBlocks child parent := by
    rintro child parent ⟨parents, isNode, isParent⟩
    simp only [twoBlocks, mem_cons, Prod.mk.injEq, not_mem_nil, or_false] at isNode
    obtain rfl : parents = [] := isNode.elim And.right And.right
    cases isParent
  have knows : KnowsChildren unlinked twoBlocks := fun _ _ =>
    ⟨[], rfl, fun _ => ⟨nofun, fun link => absurd link (noLink _ _)⟩⟩
  have earlier : Query twoBlocks (nodes twoBlocks) [.filled 1] 1 :=
    ⟨List.Subset.refl _, by decide, by decide, by decide⟩
  have query : Query twoBlocks (nodes twoBlocks) [.filled 2] 1 :=
    ⟨List.Subset.refl _, by decide, by decide, by decide⟩
  rcases umcVoting_uncached knows Function.injective_id .fresh earlier with ⟨cache, ran⟩
  rcases umcVoting_uncached knows Function.injective_id
    (.call .fresh earlier ran) query with ⟨last, voted⟩
  exact ⟨cache, last, ran, voted⟩

/-- Two blocks against none have the bytes of one block against the other. -/
theorem umcVoting_depends_on_cache :
    ∃ cache, umcVoting unlinked 1 1 (nodes twoBlocks) [] [] = .ok (-1, cache) ∧
      umcVoting unlinked 1 2 [.filled 1] [.filled 2] cache = .ok (-1, cache) ∧
      uncachedVote unlinked 1 2 [.filled 1] [.filled 2] = 1 := by
  refine ⟨[(votingBytes (nodes twoBlocks) [] 1, -1)], rfl, ?_, rfl⟩
  exact of_toOption_eq (by decide +kernel)

end Htnd.Ghostdag.Voting
