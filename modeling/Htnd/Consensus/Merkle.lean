import Mathlib

/-!
# Merkle roots

`merkle.go` over any type of hashes.  The leaves are padded with missing nodes
up to a power of two, and every row is combined in pairs from the left.  With a
branch hash that is injective and apart from leaves and from the zero hash, a
node tells a leaf from a branch and a missing right child from a present one,
so it determines the leaves below it.
-/

namespace Htnd.Consensus.Merkle

open List

/-- The hash of two branches and the zero hash. -/
class BranchHash (Hash : Type) where
  hashMerkleBranches : Hash → Hash → Hash
  zeroHash : Hash

open BranchHash

variable {Hash : Type} [BranchHash Hash]

/-- `nextPowerOfTwo`, with an exact logarithm. -/
def nextPowerOfTwo (n : Nat) : Nat :=
  if n &&& (n - 1) = 0 then n else 2 ^ (n.log2 + 1)

/-- The parent of two nodes, of which any may be missing. -/
def parent : Option Hash → Option Hash → Option Hash
  | none, _ => none
  | some left, none => some (hashMerkleBranches left zeroHash)
  | some left, some right => some (hashMerkleBranches left right)

/--
The loop of `merkleRoot`.  It reads the array from `i` on, two nodes a round,
and writes it from `offset` on, so the nodes between the two are a queue.
-/
def combine : Nat → List (Option Hash) → List (Option Hash)
  | rounds + 1, left :: right :: rest => combine rounds (rest ++ [parent left right])
  | _, merkles => merkles

def merkleRoot (hashes : List Hash) : Option Hash :=
  if hashes.length = 0 then some zeroHash
  else
    let nextPoT := nextPowerOfTwo hashes.length
    let merkles := hashes.map some ++ replicate (nextPoT - hashes.length) none
    (combine (nextPoT - 1) merkles).getLast?.join

/-! ## The nodes of a row -/

/-- The hash over some leaves at a given height; without leaves it is zero. -/
def value : Nat → List Hash → Hash
  | _, [] => zeroHash
  | 0, hash :: _ => hash
  | height + 1, hashes =>
    hashMerkleBranches (value height (hashes.take (2 ^ height)))
      (value height (hashes.drop (2 ^ height)))

/-- The node with that hash, which is missing where there are no leaves. -/
def node (height : Nat) : List Hash → Option Hash
  | [] => none
  | hashes => some (value height hashes)

/-- As many nodes of a given height, from the left. -/
def row (height : Nat) : Nat → List Hash → List (Option Hash)
  | 0, _ => []
  | count + 1, hashes =>
    node height (hashes.take (2 ^ height)) :: row height count (hashes.drop (2 ^ height))

variable {hashes hashes' : List Hash}

theorem parent_node (height : Nat) (hashes : List Hash) :
    parent (node height (hashes.take (2 ^ height))) (node height (hashes.drop (2 ^ height))) =
    node (height + 1) hashes := by
  cases hashes with
  | nil => simp [node, parent]
  | cons hash rest =>
    have isTake : (hash :: rest).take (2 ^ height) = hash :: rest.take (2 ^ height - 1) :=
      take_cons (Nat.two_pow_pos height)
    cases isDrop : (hash :: rest).drop (2 ^ height) <;>
      simp only [node, parent, value, isTake, isDrop]

theorem combine_row (height count rounds : Nat) (hashes : List Hash) (queue : List (Option Hash)) :
    combine (count + rounds) (row height (2 * count) hashes ++ queue) =
    combine rounds (queue ++ row (height + 1) count hashes) := by
  induction count generalizing hashes queue with
  | zero => simp [row]
  | succ count ih =>
    rw [Nat.succ_add, mul_add, row, row, cons_append, cons_append, combine,
      append_assoc, ih, append_assoc, row, ← parent_node, take_take, drop_take, drop_drop, pow_succ]
    simp [mul_two]

theorem combine_rows (height depth : Nat) (hashes : List Hash) : combine (2 ^ depth - 1)
    (row height (2 ^ depth) hashes) = [node (height + depth) (hashes.take (2 ^ (height + depth)))]
    := by
  induction depth generalizing height with
  | zero => rfl
  | succ depth ih =>
    have isRounds : 2 ^ (depth + 1) - 1 = 2 ^ depth + (2 ^ depth - 1) := by
      have pos := Nat.two_pow_pos depth
      omega
    have combined := combine_row height (2 ^ depth) (2 ^ depth - 1) hashes []
    rw [append_nil, nil_append, ih] at combined
    rw [isRounds, pow_succ', combined, Nat.add_right_comm]
    rfl

theorem leaves_eq_row {count : Nat} (fits : hashes.length ≤ count) :
    hashes.map some ++ replicate (count - hashes.length) none = row 0 count hashes := by
  induction count generalizing hashes with
  | zero =>
    cases eq_nil_of_length_eq_zero (Nat.le_zero.mp fits)
    rfl
  | succ count ih =>
    cases hashes with
    | nil => exact congrArg (none :: ·) (@ih [] (Nat.zero_le count))
    | cons hash hashes =>
      rw [map_cons, cons_append, length_cons, Nat.add_sub_add_right,
        ih (Nat.le_of_succ_le_succ fits)]
      rfl

theorem merkleRoot_eq_value (nonempty : hashes ≠ []) : ∃ height, hashes.length ≤ 2 ^ height ∧
    merkleRoot hashes = some (value height hashes) := by
  have pos : hashes.length ≠ 0 := by rwa [Ne, length_eq_zero_iff]
  obtain ⟨height, isPower, fits⟩ : ∃ height, nextPowerOfTwo hashes.length =
      2 ^ height ∧ hashes.length ≤ 2 ^ height := by
    rw [nextPowerOfTwo]
    split_ifs with isPower
    · rw [Nat.and_sub_one_eq_zero_iff_isPowerOfTwo pos] at isPower
      rcases isPower with ⟨height, isHeight⟩
      exact ⟨height, isHeight, isHeight.le⟩
    · exact ⟨_, rfl, Nat.lt_log2_self.le⟩
  refine ⟨height, fits, ?_⟩
  rw [merkleRoot, if_neg pos, isPower]
  dsimp only
  rw [leaves_eq_row fits, combine_rows, zero_add, take_of_length_le fits, node.eq_2 _ _ nonempty]
  rfl

/-! ## What a node determines -/

variable (Hash) in
/-- What is asked of the branch hash. -/
structure Ideal : Prop where
  injective : ∀ left right left' right' : Hash,
    hashMerkleBranches left right = hashMerkleBranches left' right' → left = left' ∧ right = right'
  notZero : ∀ left right : Hash, hashMerkleBranches left right ≠ zeroHash

/-- Hashes of leaves are not zero and not those of branches. -/
def AreLeaves (hashes : List Hash) : Prop :=
  ∀ hash ∈ hashes, hash ≠ zeroHash ∧ ∀ left right, hashMerkleBranches left right ≠ hash

theorem AreLeaves.mono {part : List Hash} (areLeaves : AreLeaves hashes)
    (isPart : part ⊆ hashes) : AreLeaves part :=
  fun hash isIn => areLeaves hash (isPart isIn)

theorem eq_nil_of_value_eq_zero (ideal : Ideal Hash) (areLeaves : AreLeaves hashes) {height : Nat}
    (isZero : value height hashes = zeroHash) : hashes = [] := by
  cases hashes with
  | nil => rfl
  | cons hash hashes =>
    cases height with
    | zero => exact absurd isZero (areLeaves hash mem_cons_self).1
    | succ height => exact absurd isZero (ideal.notZero _ _)

/-- The heights need not be known, since a leaf is not a branch. -/
theorem value_injective {height height' : Nat} {hashes hashes' : List Hash} (ideal : Ideal Hash)
    (areLeaves : AreLeaves hashes) (areLeaves' : AreLeaves hashes')
    (fits : hashes.length ≤ 2 ^ height) (fits' : hashes'.length ≤ 2 ^ height')
    (same : value height hashes = value height' hashes') : hashes = hashes' := by
  match height, height', hashes, hashes' with
  | _, _, [], _ =>
    rw [value] at same
    exact (eq_nil_of_value_eq_zero ideal areLeaves' same.symm).symm
  | _, _, _ :: _, [] =>
    rw [value] at same
    exact eq_nil_of_value_eq_zero ideal areLeaves same
  | 0, 0, [hash], [hash'] => exact congrArg ([·]) same
  | 0, _ + 1, hash :: _, _ :: _ => exact absurd same.symm ((areLeaves hash mem_cons_self).2 _ _)
  | _ + 1, 0, _ :: _, hash' :: _ => exact absurd same ((areLeaves' hash' mem_cons_self).2 _ _)
  | height + 1, height' + 1, hash :: rest, hash' :: rest' =>
    rcases ideal.injective _ _ _ _ same with ⟨sameLeft, sameRight⟩
    rw [pow_succ', two_mul] at fits fits'
    have isTake := value_injective ideal (areLeaves.mono (take_subset _ _))
      (areLeaves'.mono (take_subset _ _)) (length_take_le _ _) (length_take_le _ _) sameLeft
    have isDrop := value_injective ideal (areLeaves.mono (drop_subset _ _))
      (areLeaves'.mono (drop_subset _ _)) (by rw [length_drop]; omega)
      (by rw [length_drop]; omega) sameRight
    rw [← take_append_drop (2 ^ height) (hash :: rest), isTake, isDrop, take_append_drop]

/-- Lists of leaves with one root are equal. -/
theorem merkleRoot_injective (ideal : Ideal Hash)
    (areLeaves : AreLeaves hashes) (areLeaves' : AreLeaves hashes')
    (nonempty : hashes ≠ []) (nonempty' : hashes' ≠ [])
    (same : merkleRoot hashes = merkleRoot hashes') : hashes = hashes' := by
  rcases merkleRoot_eq_value nonempty with ⟨height, fits, isValue⟩
  rcases merkleRoot_eq_value nonempty' with ⟨height', fits', isValue'⟩
  rw [isValue, isValue'] at same
  exact value_injective ideal areLeaves areLeaves' fits fits' (Option.some.inj same)

instance : BranchHash (FreeMagma Nat) := ⟨(· * ·), .of 0⟩

/-- A last leaf that is repeated changes the root. -/
theorem merkleRoot_injective_repeated :
    merkleRoot [FreeMagma.of 1] ≠ merkleRoot [FreeMagma.of 1, .of 1] := by
  have ideal : Ideal (FreeMagma Nat) := by
    refine ⟨?_, fun _ _ => nofun⟩
    intro left right left' right' same
    cases same
    exact ⟨rfl, rfl⟩
  have areLeaves : ∀ count, AreLeaves (replicate count (FreeMagma.of 1)) := by
    intro count hash isIn
    rw [eq_of_mem_replicate isIn]
    exact ⟨nofun, fun _ _ => nofun⟩
  intro same
  have equal := merkleRoot_injective ideal (areLeaves 1) (areLeaves 2)
    (cons_ne_nil _ _) (cons_ne_nil _ _) same
  cases equal

end Htnd.Consensus.Merkle
