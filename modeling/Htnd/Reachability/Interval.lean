import Htnd.Lib.SpanTree
import Htnd.Utxo.Entry

/-!
# Reachability intervals

The interval arithmetic of the reachability tree, in unchecked 64-bit
arithmetic as the source has it.  An interval stands for the half-open span
from its start to the number after its end; an interval whose end is one below
its start stands for an empty span.  Every operation is described on spans,
under the bounds that keep it from wrapping around.

The conversion of an integer to a 64-bit float is modelled exactly, for the
split in half.  The shares of the exponentially biased split go through powers
and quotients of floats; their rounded values are a parameter.
-/

namespace Htnd.Reachability.Interval

open Lib.SpanTree Utxo.Entry List

/--
The errors of the reachability manager.  Reading through `nil` or past the end
of a slice, which ends the program, is an error too; a walk that needs more
rounds than it is given is unfinished.
-/
inductive ReachabilityError where
  | dataNotFound (blockHash : DomainHash)
  | ghostdagDataNotFound (blockHash : DomainHash)
  | reindexRootNotFound
  | nilInterval (blockHash : DomainHash)
  | nilHash
  | splitsEmptyInterval
  | sizesNotEqualToInterval
  | sizesExceedInterval
  | ancestorIsDescendant
  | notAnAncestor
  | pivotNotAChild
  | missingTreeParent
  | reindexRootOutOfCapacity (reindexRoot : DomainHash)
  | blueScoreAboveTip (chosenChild selectedTip : DomainHash)
  | indexOutOfRange
  | unfinished
deriving DecidableEq

/-- `model.ReachabilityInterval`; both ends belong to it. -/
structure ReachabilityInterval where
  start : UInt64
  end_ : UInt64
deriving DecidableEq

def ReachabilityInterval.span (interval : ReachabilityInterval) : Span where
  lo := interval.start.toNat
  hi := interval.end_.toNat + 1

def intervalSize (ri : ReachabilityInterval) : UInt64 := ri.end_ - ri.start + 1

def intervalIncrease (ri : ReachabilityInterval) (offset : UInt64) :
    ReachabilityInterval :=
  ⟨ri.start + offset, ri.end_ + offset⟩

def intervalDecrease (ri : ReachabilityInterval) (offset : UInt64) :
    ReachabilityInterval :=
  ⟨ri.start - offset, ri.end_ - offset⟩

def intervalIncreaseStart (ri : ReachabilityInterval) (offset : UInt64) :
    ReachabilityInterval :=
  ⟨ri.start + offset, ri.end_⟩

def intervalDecreaseStart (ri : ReachabilityInterval) (offset : UInt64) :
    ReachabilityInterval :=
  ⟨ri.start - offset, ri.end_⟩

def intervalIncreaseEnd (ri : ReachabilityInterval) (offset : UInt64) :
    ReachabilityInterval :=
  ⟨ri.start, ri.end_ + offset⟩

def intervalDecreaseEnd (ri : ReachabilityInterval) (offset : UInt64) :
    ReachabilityInterval :=
  ⟨ri.start, ri.end_ - offset⟩

def intervalContains (ri other : ReachabilityInterval) : Bool :=
  ri.start ≤ other.start && other.end_ ≤ ri.end_

/-! ## Splitting in half -/

/-- The value of `float64(number)`: 53 significant bits, ties to even. -/
def float64OfUint64 (number : UInt64) : Nat :=
  let unit := 2 ^ (number.toNat.log2 - 52)
  let quotient := number.toNat / unit
  let rest := number.toNat % unit
  if 2 * rest < unit ∨ (2 * rest = unit ∧ quotient % 2 = 0) then
    quotient * unit
  else (quotient + 1) * unit

/-- The value of `uint64(math.Ceil(float64(number) * 0.5))`. -/
def ceilOfHalf (number : UInt64) : UInt64 := UInt64.ofNat ((float64OfUint64 number + 1) / 2)

/-- `intervalSplitInHalf`: `intervalSplitFraction` by the fraction 0.5. -/
def intervalSplitInHalf (ri : ReachabilityInterval) : Except ReachabilityError
      (ReachabilityInterval × ReachabilityInterval) :=
  if intervalSize ri = 0 then .error .splitsEmptyInterval
  else
    let allocationSize := ceilOfHalf (intervalSize ri)
    .ok (⟨ri.start, ri.start + allocationSize - 1⟩, ⟨ri.start + allocationSize, ri.end_⟩)

/-! ## Splitting by sizes -/

/-- Consecutive intervals of the given sizes. -/
def consecutive : UInt64 → List UInt64 → List ReachabilityInterval
  | _, [] => []
  | start, size :: sizes => ⟨start, start + size - 1⟩ :: consecutive (start + size) sizes

def intervalSplitExact (ri : ReachabilityInterval) (sizes : List UInt64) :
    Except ReachabilityError (List ReachabilityInterval) :=
  if sizes.sum ≠ intervalSize ri then .error .sizesNotEqualToInterval
  else .ok (consecutive ri.start sizes)

/--
The rounded shares `uint64(math.Round(float64(totalBias)*fraction))`, where
the fraction is the one `exponentialFractions` gives to the index.
-/
abbrev RoundedShares := UInt64 → List UInt64 → Nat → UInt64

/-- The sizes with their biases; the last size takes what remains. -/
def addBiases (share : Nat → UInt64) : Nat → UInt64 → List UInt64 → List UInt64
  | _, _, [] => []
  | _, remainingBias, [size] => [size + remainingBias]
  | index, remainingBias, size :: next :: sizes =>
    let bias := min (share index) remainingBias
    (size + bias) :: addBiases share (index + 1) (remainingBias - bias) (next :: sizes)

def intervalSplitWithExponentialBias (shares : RoundedShares) (ri : ReachabilityInterval)
    (sizes : List UInt64) : Except ReachabilityError (List ReachabilityInterval) :=
  if sizes.sum > intervalSize ri then .error .sizesExceedInterval
  else if sizes.sum = intervalSize ri then intervalSplitExact ri sizes
  else
    let totalBias := intervalSize ri - sizes.sum
    intervalSplitExact ri (addBiases (shares totalBias sizes) 0 totalBias sizes)

/-! ## Spans of the results -/

variable {ri other left right : ReachabilityInterval} {offset : UInt64}

theorem intervalContains_iff : intervalContains ri other = true ↔ ri.span.Contains other.span := by
  rw [intervalContains, Bool.and_eq_true, decide_eq_true_eq, decide_eq_true_eq]
  exact and_congr Iff.rfl Nat.succ_le_succ_iff.symm

theorem toNat_size (pos : 1 ≤ ri.span.lo) (upward : ri.span.lo ≤ ri.span.hi) :
    (intervalSize ri).toNat = ri.span.width := by
  have bound := ri.end_.toNat_lt
  change 1 ≤ ri.start.toNat at pos
  change ri.start.toNat ≤ ri.end_.toNat + 1 at upward
  change _ = ri.end_.toNat + 1 - ri.start.toNat
  rw [intervalSize, UInt64.toNat_add, UInt64.toNat_sub, UInt64.toNat_one]
  omega

theorem intervalSize_eq_zero_iff (pos : 1 ≤ ri.span.lo) (upward : ri.span.lo ≤ ri.span.hi) :
    intervalSize ri = 0 ↔ ri.span.lo = ri.span.hi := by
  rw [← UInt64.toNat_inj, toNat_size pos upward, Span.width, UInt64.toNat_zero]
  omega

theorem span_eq {start end_ : UInt64} {lo hi : Nat} (startIs : start.toNat = lo)
    (endIs : end_.toNat + 1 = hi) : (ReachabilityInterval.mk start end_).span = ⟨lo, hi⟩ :=
  Span.ext startIs endIs

variable {first second : UInt64}

theorem toNat_add_of_lt (fits : first.toNat + second.toNat < 2 ^ 64) :
    (first + second).toNat = first.toNat + second.toNat := by
  rw [UInt64.toNat_add, Nat.mod_eq_of_lt fits]

theorem toNat_sub_of_le (fits : second.toNat ≤ first.toNat) :
    (first - second).toNat = first.toNat - second.toNat :=
  UInt64.toNat_sub_of_le first second (UInt64.le_iff_toNat_le.mpr fits)

theorem span_intervalIncreaseEnd (fits : ri.span.hi + offset.toNat < 2 ^ 64) :
    (intervalIncreaseEnd ri offset).span = ⟨ri.span.lo, ri.span.hi + offset.toNat⟩ := by
  change ri.end_.toNat + 1 + offset.toNat < 2 ^ 64 at fits
  have moved : (ri.end_ + offset).toNat = ri.end_.toNat + offset.toNat := toNat_add_of_lt (by omega)
  refine span_eq rfl ?_
  rw [moved, Nat.add_right_comm]
  rfl

theorem span_intervalDecreaseEnd (fits : offset.toNat < ri.span.hi) :
    (intervalDecreaseEnd ri offset).span = ⟨ri.span.lo, ri.span.hi - offset.toNat⟩ := by
  have bound := Nat.le_of_lt_succ fits
  refine span_eq rfl ?_
  rw [toNat_sub_of_le bound]
  change _ = ri.end_.toNat + 1 - offset.toNat
  omega

variable {number : UInt64}

/-- A float has at least the leading bit of the number and is not far above. -/
theorem float64OfUint64_bounds (pos : number ≠ 0) : 1 ≤ float64OfUint64 number ∧
    float64OfUint64 number + 1 ≤ 2 * number.toNat + 1 := by
  have nonzero : number.toNat ≠ 0 := fun isZero => pos (UInt64.toNat_inj.mp isZero)
  have unitPositive : 0 < 2 ^ (number.toNat.log2 - 52) := Nat.two_pow_pos _
  have unitLe : 2 ^ (number.toNat.log2 - 52) ≤ number.toNat :=
    (Nat.pow_le_pow_right (by decide) (Nat.sub_le _ _)).trans (Nat.log2_self_le nonzero)
  rw [float64OfUint64]
  generalize 2 ^ (number.toNat.log2 - 52) = unit at *
  have parts := Nat.div_add_mod number.toNat unit
  split_ifs with down
  · rw [mul_comm]
    omega
  · rw [Nat.add_mul, mul_comm]
    omega

theorem ceilOfHalf_bounds (pos : number ≠ 0) : 1 ≤ (ceilOfHalf number).toNat ∧
    (ceilOfHalf number).toNat ≤ number.toNat := by
  have bounds := float64OfUint64_bounds pos
  have limit := number.toNat_lt
  rw [ceilOfHalf, UInt64.toNat_ofNat']
  omega

/-- The interval of a given size from a given start. -/
theorem span_sized (start size : UInt64) (pos : 1 ≤ start.toNat)
    (fits : start.toNat + size.toNat ≤ 2 ^ 64) : (ReachabilityInterval.mk start
    (start + size - 1)).span = ⟨start.toNat, start.toNat + size.toNat⟩ := by
  refine span_eq rfl ?_
  rw [UInt64.toNat_sub, UInt64.toNat_add, UInt64.toNat_one]
  omega

/-- The left half starts where the interval does and is not empty. -/
theorem intervalSplitInHalf_eq (pos : 1 ≤ ri.span.lo) (upward : ri.span.lo ≤ ri.span.hi)
    (nonNil : intervalSize ri ≠ 0) : ∃ left right, intervalSplitInHalf ri = .ok (left, right) ∧
    left.span.lo = ri.span.lo ∧ left.span.lo < left.span.hi ∧ left.span.hi ≤ ri.span.hi := by
  rw [intervalSplitInHalf, if_neg nonNil]
  refine ⟨_, _, rfl, ?_⟩
  have bounds := ceilOfHalf_bounds nonNil
  rw [toNat_size pos upward, Span.width] at bounds
  have limit : ri.span.hi ≤ 2 ^ 64 := ri.end_.toNat_lt
  have atStart : ri.start.toNat = ri.span.lo := rfl
  rw [span_sized _ _ pos (by omega)]
  refine ⟨rfl, ?_, ?_⟩
  · change ri.start.toNat < ri.start.toNat + _
    omega
  · change ri.start.toNat + _ ≤ _
    omega

/-! ## Spans of the parts -/

variable {sizes : List UInt64}

/-- The sum of sizes that do not overflow together. -/
theorem toNat_sum (fits : (sizes.map UInt64.toNat).sum < 2 ^ 64) :
    sizes.sum.toNat = (sizes.map UInt64.toNat).sum := by
  induction sizes with
  | nil => rfl
  | cons size sizes ih =>
    rw [map_cons, sum_cons] at fits
    have rest := ih (by omega)
    rw [sum_cons, map_cons, sum_cons, toNat_add_of_lt (by omega), rest]

/-- Consecutive intervals tile the numbers from their start. -/
theorem tiles_consecutive (start : UInt64) (pos : 1 ≤ start.toNat)
    (fits : start.toNat + (sizes.map UInt64.toNat).sum < 2 ^ 64) :
    Tiles ReachabilityInterval.span start.toNat (consecutive start sizes)
    (start.toNat + (sizes.map UInt64.toNat).sum) ∧
    List.Forall₂ (fun size interval => interval.span.width = size.toNat) sizes
    (consecutive start sizes) := by
  induction sizes generalizing start with
  | nil => exact ⟨rfl, .nil⟩
  | cons size sizes ih =>
    rw [map_cons, sum_cons] at fits
    have next : (start + size).toNat = start.toNat + size.toNat := toNat_add_of_lt (by omega)
    have sized := span_sized start size pos (by omega)
    rcases ih (start + size) (by omega) (by omega) with ⟨tiles, widths⟩
    rw [next] at tiles
    refine ⟨⟨congrArg Span.lo sized, ?_, ?_⟩, ?_⟩
    · rw [sized]
      exact Nat.le_add_right _ _
    · rw [sized, map_cons, sum_cons, ← add_assoc]
      exact tiles
    · refine .cons ?_ widths
      rw [sized]
      exact Nat.add_sub_cancel_left _ _

/-- An exact split of sizes that fill the interval; the parts tile it. -/
theorem splitExact_eq (pos : 1 ≤ ri.span.lo) (upward : ri.span.lo ≤ ri.span.hi)
    (limit : ri.span.hi < 2 ^ 64) (fills : (sizes.map UInt64.toNat).sum = ri.span.width) : ∃ parts,
    intervalSplitExact ri sizes = .ok parts ∧ Tiles ReachabilityInterval.span ri.span.lo parts
    ri.span.hi ∧ List.Forall₂ (fun size interval => interval.span.width = size.toNat) sizes
    parts := by
  have equal : sizes.sum = intervalSize ri := by
    rw [← UInt64.toNat_inj, toNat_size pos upward, ← fills]
    refine toNat_sum ?_
    rw [fills, Span.width]
    omega
  rw [Span.width] at fills
  have stop : ri.span.hi = ri.start.toNat + (sizes.map UInt64.toNat).sum := by
    change _ = ri.span.lo + _
    omega
  rw [intervalSplitExact, if_neg (not_not.mpr equal)]
  rw [stop] at limit ⊢
  exact ⟨_, rfl, tiles_consecutive ri.start pos limit⟩

/-- The biases are shared out completely. -/
theorem sum_addBiases (share : Nat → UInt64) (nonempty : sizes ≠ []) (index : Nat) (rest : UInt64)
    (fits : (sizes.map UInt64.toNat).sum + rest.toNat < 2 ^ 64) :
    ((addBiases share index rest sizes).map UInt64.toNat).sum = (sizes.map UInt64.toNat).sum +
    rest.toNat ∧ List.Forall₂ (fun size biased => size.toNat ≤ biased.toNat) sizes
    (addBiases share index rest sizes) := by
  induction sizes generalizing rest index with
  | nil => exact absurd rfl nonempty
  | cons size sizes ih =>
    rw [map_cons, sum_cons] at fits
    cases sizes with
    | nil =>
      have biased : (size + rest).toNat = size.toNat + rest.toNat := toNat_add_of_lt (by
        omega)
      rw [addBiases]
      refine ⟨?_, .cons ?_ List.Forall₂.nil⟩
      · rw [map_singleton, map_singleton, sum_singleton, sum_singleton, biased]
      · rw [biased]
        exact Nat.le_add_right _ _
    | cons next sizes =>
      have atMost : (min (share index) rest).toNat ≤ rest.toNat := by
        rw [UInt64.toNat_min]
        exact Nat.min_le_right _ _
      have biased : (size + min (share index) rest).toNat =
          size.toNat + (min (share index) rest).toNat := toNat_add_of_lt (by omega)
      have left := toNat_sub_of_le atMost
      rcases ih (cons_ne_nil next sizes) (index + 1) (rest - min (share index) rest) (by omega) with
        ⟨_, larger⟩
      have whole : ((size :: next :: sizes).map UInt64.toNat).sum =
          size.toNat + ((next :: sizes).map UInt64.toNat).sum := by
        rw [map_cons, sum_cons]
      rw [addBiases]
      refine ⟨?_, .cons ?_ larger⟩
      · rw [map_cons, sum_cons]
        omega
      · rw [biased]
        exact Nat.le_add_right _ _

theorem room_of_biased {sizes biased : List UInt64} {parts : List ReachabilityInterval}
    (larger : List.Forall₂ (fun size biased => size.toNat ≤ biased.toNat) sizes biased)
    (widths : List.Forall₂ (fun size interval => interval.span.width = size.toNat) biased parts) :
    List.Forall₂ (fun size interval => size.toNat ≤ interval.span.width) sizes parts := by
  induction larger generalizing parts with
  | nil =>
    cases widths
    exact .nil
  | cons atMost _ ih =>
    cases widths with
    | cons width widths => exact .cons (atMost.trans width.ge) (ih widths)

/--
A biased split of sizes that fit; the parts tile the interval, and each has
room for its size.
-/
theorem intervalSplitWithExponentialBias_eq (shares : RoundedShares) (nonempty : sizes ≠ [])
    (pos : 1 ≤ ri.span.lo) (upward : ri.span.lo ≤ ri.span.hi) (limit : ri.span.hi < 2 ^ 64)
    (fits : (sizes.map UInt64.toNat).sum ≤ ri.span.width) : ∃ parts,
    intervalSplitWithExponentialBias shares ri sizes = .ok parts ∧
    Tiles ReachabilityInterval.span ri.span.lo parts ri.span.hi ∧
    List.Forall₂ (fun size interval => size.toNat ≤ interval.span.width) sizes parts := by
  have sizeIs := toNat_size pos upward
  have widthLt : ri.span.width < 2 ^ 64 := by
    rw [Span.width]
    omega
  have sumIs := toNat_sum (fits.trans_lt widthLt)
  have notExceeds : ¬ sizes.sum > intervalSize ri := by
    rw [gt_iff_lt, UInt64.lt_iff_toNat_lt]
    omega
  rw [intervalSplitWithExponentialBias, if_neg notExceeds]
  by_cases equal : sizes.sum = intervalSize ri
  · rw [if_pos equal]
    have fills : (sizes.map UInt64.toNat).sum = ri.span.width := by rw [← sumIs, equal, sizeIs]
    rcases splitExact_eq pos upward limit fills with ⟨parts, splits, tiles, widths⟩
    exact ⟨parts, splits, tiles, widths.imp fun _ _ same => same.ge⟩
  · rw [if_neg equal]
    have biasIs : (intervalSize ri - sizes.sum).toNat =
        ri.span.width - (sizes.map UInt64.toNat).sum := by
      rw [toNat_sub_of_le (by omega), sizeIs, sumIs]
    rcases sum_addBiases (shares (intervalSize ri - sizes.sum) sizes)
      nonempty 0 (intervalSize ri - sizes.sum) (by omega) with ⟨total, larger⟩
    rcases splitExact_eq pos upward limit
      (total.trans (by omega)) with ⟨parts, splits, tiles, widths⟩
    exact ⟨parts, splits, tiles, room_of_biased larger widths⟩

end Htnd.Reachability.Interval
