import Htnd.Reachability.FutureCovering

/-!
# The next node towards a descendant

`FindNextAncestor` returns the last child that starts at or before the end of
the descendant's interval and does not ask whether that child contains it.
Below the ancestor the child is the right one; for any other block the call
fails only if every child starts after the block's interval.
-/

namespace Htnd.Reachability.NextAncestor

open Lib.Fallible Lib.RootedTree Lib.SpanTree Lib.TreeOrder List
open Utxo.Entry Reachability.Interval Reachability.Tree Manager Shape Ancestors
  Invariant Run FutureCovering

variable {store : ReachabilityDataStore} {blocks : List DomainHash} {slack : Nat}
  {descendant ancestor : DomainHash}

/-- The child towards a strict descendant is found; any other block fails. -/
def FindsNextAncestor (store : ReachabilityDataStore) (descendant ancestor : DomainHash) : Prop :=
  ((shapeOf store).Below ancestor descendant ∧ ancestor ≠ descendant →
    ∃ child ∈ (shapeOf store).children ancestor, (shapeOf store).Below child descendant ∧
    store.findNextAncestor descendant ancestor = .ok child) ∧
  (¬ ((shapeOf store).Below ancestor descendant ∧ ancestor ≠ descendant) →
    ∃ err, store.findNextAncestor descendant ancestor = .error err)

section Search

variable (sound : IndexedStore slack blocks store) (ancestorIn : ancestor ∈ blocks)

include sound ancestorIn

/-- Siblings are unrelated and listed in tree order. -/
theorem orderedSet_children :
    OrderedSet blocks (shapeOf store).children ((shapeOf store).children ancestor) where
  ordered := pairwise_iff_forall_sublist.mpr fun inOrder => ⟨ancestor, _, _, inOrder, .refl _,
    .refl _⟩
  inTree child isChild :=
    (sound.nodes child).mp (((sound.nodes ancestor).mpr ancestorIn).tail isChild)

/-- Sorting the children by their starts leaves them as they are listed. -/
theorem sorted_children : ((shapeOf store).children ancestor).insertionSort
    (fun first second => store.startsBefore first second) = (shapeOf store).children ancestor := by
  have covers := orderedSet_children sound ancestorIn
  have pos := (span_of_block sound ancestorIn).1
  rcases sound.indexed with ⟨_, -, -, index⟩
  rcases index.encloses ancestor ((sound.nodes ancestor).mpr ancestorIn) not_false with
    ⟨start, stop, starts, tiles, -⟩
  refine List.Pairwise.insertionSort_eq (pairwise_startsBefore tiles (pos.trans starts) ?_)
  exact fun child isChild => (span_of_block sound
    (covers.inTree child (dropLast_subset _ isChild))).2

/--
The last child that starts in time is returned, whether or not it contains the
descendant.
-/
theorem findNextAncestor_eq (descendantIn : descendant ∈ blocks) (ne : ancestor ≠ descendant) :
    ∃ front back, (shapeOf store).children ancestor = front ++ back ∧
    (∀ node ∈ front, (spanOf store node).lo < (spanOf store descendant).hi) ∧
    (∀ node ∈ back, (spanOf store descendant).hi ≤ (spanOf store node).lo) ∧
    (∀ upper ∈ (shapeOf store).children ancestor, (shapeOf store).Below upper descendant →
      front.getLast? = some upper) ∧
    store.findNextAncestor descendant ancestor =
      front.getLast?.elim (.error .notAnAncestor) .ok := by
  rcases interval_pos (span_of_block sound descendantIn).1 with ⟨_, read⟩
  rcases split_of_search sound (orderedSet_children sound ancestorIn) descendantIn read with
    ⟨front, back, split, early, late, last, index⟩
  refine ⟨front, back, split, early, late, last, ?_⟩
  rw [ReachabilityDataStore.findNextAncestor, if_neg ne,
    ok_bind (reads_of_positive (span_of_block sound ancestorIn).1).1]
  dsimp only
  rw [sorted_children sound ancestorIn, ReachabilityDataStore.findAncestorOfNode, index]
  rcases eq_nil_or_concat front with rfl | ⟨init, child, rfl⟩
  · rfl
  · have found : ((shapeOf store).children ancestor)[init.length]? = some child := by simp [split]
    simp [found]
    rfl

end Search

/-- Blocks 1 to 3 under the virtual genesis, and block 4 under block 3. -/
theorem exists_indexedStore : ∃ store, IndexedStore 4096 [blockHash 4, blockHash 3, blockHash 2,
      blockHash 1, virtualGenesisBlockHash] store ∧
      store.findNextAncestor virtualGenesisBlockHash (blockHash 3) = .ok (blockHash 4) := by
  have evaluates : ((fourBlocksRun totalStore).toOption.bind fun store =>
      (store.findNextAncestor virtualGenesisBlockHash (blockHash 3)).toOption) =
      some (blockHash 4) := by
    decide +kernel
  rcases ok_of_toOption evaluates with ⟨store, runs, finds⟩
  exact ⟨store, store_of_calls (reindexSlack_default halvedShares)
    (calls_fourBlocks runs fun _ _ _ _ => rfl) (ample_default (by decide)), finds⟩

end Htnd.Reachability.NextAncestor
