import Htnd.Ghostdag.SelectedChain

/-!
# Blue scores along the selected chain

A block has one selected parent, so the blocks of a chain are comparable.  The
blue score of a block is larger than that of its selected parent, as long as the
graph has fewer blocks than the type has values.
-/

namespace Htnd.Ghostdag.BlueScores

open Relation Lib.BlockDag Utxo.Entry Manager DagColouring SelectedChain

variable {dag : Dag DomainHash} {store : GHOSTDAGDataStore} {block lower other parent : DomainHash}

def blueScoreOf (store : GHOSTDAGDataStore) (block : DomainHash) : UInt64 :=
  ((store.lookup block).map BlockGHOSTDAGData.blueScore).getD 0

theorem blueScoreOf_eq {data : BlockGHOSTDAGData} (found : store.lookup block = some data) :
    blueScoreOf store block = data.blueScore := by
  rw [blueScoreOf, found]
  rfl

theorem selected_unique (first : SelectedParent store block parent)
    (second : SelectedParent store block other) : parent = other := by
  rcases first with ⟨_, found, chosen⟩
  rcases second with ⟨_, found', selected'⟩
  rw [found] at found'
  cases found'
  rw [chosen] at selected'
  exact Option.some.inj selected'

/-- Of two blocks of a chain one is on the chain of the other. -/
theorem onChain_comparable (first : OnChain store block lower)
    (second : OnChain store block other) : OnChain store lower other ∨ OnChain store other lower :=
  ReflTransGen.total_of_right_unique
    (fun _ _ _ isFirst isSecond => selected_unique isFirst isSecond) first second

variable (topo : Topological dag) (coloured : Coloured dag store) (fits : dag.length < 2 ^ 64)

include topo coloured

omit topo in
theorem merged_of_link (inDag : block ∈ nodes dag) (link : SelectedParent store block parent) :
    ∃ data, store.lookup block = some data ∧ Merged dag store block data parent := by
  rcases link with ⟨data, found, chosen⟩
  rcases coloured block inDag with ⟨_, found', isRoot | ⟨_, merged⟩⟩
  · rcases isRoot.data_eq with ⟨k, rfl⟩
    rw [found] at found'
    cases found'
    cases chosen
  rw [found] at found'
  cases found'
  rw [merged.selected] at chosen
  cases chosen
  exact ⟨data, found, merged⟩

theorem onChain_mem (inDag : block ∈ nodes dag)
    (path : OnChain store block lower) : lower ∈ nodes dag := by
  induction path with
  | refl => exact inDag
  | tail _ link ih =>
    obtain ⟨_, _, merged⟩ := merged_of_link coloured ih link
    exact topo.parent_mem merged.isParent

theorem ncard_blueSet_le (inDag : block ∈ nodes dag) :
    (blueSet store block).ncard ≤ dag.length := by
  classical
  have within : blueSet store block ⊆ ((nodes dag).toFinset : Set DomainHash) :=
    fun _ isBlue => List.mem_toFinset.mpr (topo.ancestor_mem
    (blueSet_subset topo coloured inDag isBlue))
  calc (blueSet store block).ncard
      ≤ ((nodes dag).toFinset : Set DomainHash).ncard :=
        Set.ncard_le_ncard within (Finset.finite_toSet _)
    _ = (nodes dag).toFinset.card := Set.ncard_coe_finset _
    _ ≤ (nodes dag).length := List.toFinset_card_le _
    _ = dag.length := List.length_map _

theorem ncard_blueSet_lt (inDag : block ∈ nodes dag) (link : SelectedParent store block parent) :
    (blueSet store parent).ncard < (blueSet store block).ncard := by
  obtain ⟨_, found, merged⟩ := merged_of_link coloured inDag link
  have parentIn := topo.parent_mem merged.isParent
  have isUnion := blueSet_merged found merged
  refine Set.ncard_lt_ncard ?_ (finite_blueSet topo coloured inDag)
  refine ⟨fun _ isBlue => ?_, fun within => ?_⟩
  · rw [isUnion]
    exact .inr isBlue
  · have isBlue : parent ∈ blueSet store block := by
      rw [isUnion]
      exact .inl merged.isBlue
    exact topo.irrefl (blueSet_subset topo coloured parentIn (within isBlue))

include fits

theorem toNat_blueScoreOf (inDag : block ∈ nodes dag) :
    (blueScoreOf store block).toNat = (blueSet store block).ncard := by
  rcases coloured block inDag with ⟨_, found, -⟩
  have small := ncard_blueSet_le topo coloured inDag
  rw [blueScoreOf_eq found, blueScore_eq topo coloured inDag found,
    UInt64.toNat_ofNat', Nat.mod_eq_of_lt (by omega)]

/-- The blue score grows along the chain. -/
theorem blueScoreOf_lt (inDag : block ∈ nodes dag) (link : SelectedParent store block parent) :
    blueScoreOf store parent < blueScoreOf store block := by
  have parentIn := onChain_mem topo coloured inDag (.single link)
  rw [UInt64.lt_iff_toNat_lt, toNat_blueScoreOf topo coloured fits parentIn,
    toNat_blueScoreOf topo coloured fits inDag]
  exact ncard_blueSet_lt topo coloured inDag link

theorem blueScoreOf_le (inDag : block ∈ nodes dag) (path : OnChain store block lower) :
    blueScoreOf store lower ≤ blueScoreOf store block := by
  induction path with
  | refl => exact UInt64.le_refl _
  | tail path link ih =>
    have middleIn := onChain_mem topo coloured inDag path
    have below := blueScoreOf_lt topo coloured fits middleIn link
    exact UInt64.le_trans (UInt64.le_of_lt below) ih

end Htnd.Ghostdag.BlueScores
