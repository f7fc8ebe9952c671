import Htnd.Ghostdag.BlueScores
import Htnd.MergeDepth.Manager

/-!
# Merge depth roots

Blue scores grow along the selected chain, so there is one chain block of
highest blue score below any that the chain reaches.  The walk finds it from
every chain block below, whatever was stored before; but where it starts from a
pruning point that is not below the required blue score it ends there.
-/

namespace Htnd.MergeDepth.Roots

open Relation Lib.BlockDag Lib.Fallible Lib.RangeLoops Utxo.Entry
open Ghostdag.Manager Ghostdag.DagColouring Ghostdag.SelectedChain
open Ghostdag.BlueScores Manager ReflTransGen BlockGHOSTDAGData

/-! ## A manager on a coloured graph -/

/-- A chain block, or the virtual genesis that stands for none. -/
def Storable (store : GHOSTDAGDataStore) (block root : DomainHash) : Prop :=
  root = virtualGenesisBlockHash ∨ OnChain store block root

/--
A manager whose reachability tree is the tree of selected parents.  Virtual is
no parent and not in the tree.
-/
structure OnGraph (dag : Dag DomainHash) (store : GHOSTDAGDataStore)
    (mdm : MergeDepthManager) : Prop where
  isStore : mdm.ghostdagDataStore = store
  pruningPoint_mem : mdm.pruningPoint ∈ nodes dag
  pruningPoint_ne : mdm.pruningPoint ≠ virtualBlockHash
  virtual_last : ∀ block, ¬ IsParent dag block virtualBlockHash
  tree : ∀ ancestor ∈ nodes dag, ∀ block ∈ nodes dag, ancestor ≠ virtualBlockHash →
    block ≠ virtualBlockHash → ∃ answer, mdm.isReachabilityTreeAncestorOf ancestor block =
    .ok answer ∧ (answer = true ↔ OnChain store block ancestor)
  next : ∀ block ∈ nodes dag, block ≠ virtualBlockHash → ∀ ancestor, OnChain store block ancestor →
    ancestor ≠ block → ∃ child, mdm.findNextAncestor block ancestor = .ok child ∧
    OnChain store block child ∧ SelectedParent store child ancestor
  self : ∀ block ∈ nodes dag, ∃ failure, mdm.findNextAncestor block block = .error failure
  finality : ∀ block point, mdm.finalityPoint block = some point → Storable store block point

section Graph

variable {dag : Dag DomainHash} {store : GHOSTDAGDataStore}
  {mdm : MergeDepthManager} {block here selectedParent : DomainHash}

theorem getData_ok (onGraph : OnGraph dag store mdm) {data : BlockGHOSTDAGData}
    (found : store.lookup block = some data) : getGhostdagData mdm block = .ok data := by
  rw [getGhostdagData, onGraph.isStore, found]

theorem reachableHash_real (real : block ≠ virtualBlockHash) :
    reachableHash mdm block = .ok block := by
  rw [reachableHash, if_neg real]
  rfl

variable (dag store mdm block) in
/-- A block of the coloured graph, with a manager on it. -/
structure Asks : Prop where
  topo : Topological dag
  coloured : Coloured dag store
  onGraph : OnGraph dag store mdm
  blockIn : block ∈ nodes dag

variable (asks : Asks dag store mdm block)

include asks

theorem Asks.along (path : OnChain store block here) : Asks dag store mdm here where
  __ := asks
  blockIn := onChain_mem asks.topo asks.coloured asks.blockIn path

theorem Asks.merged (link : SelectedParent store block selectedParent) :
    ∃ data, store.lookup block = some data ∧ Merged dag store block data selectedParent :=
  merged_of_link asks.coloured asks.blockIn link

theorem Asks.ne_virtual (link : SelectedParent store block selectedParent) :
    selectedParent ≠ virtualBlockHash := by
  rintro rfl
  obtain ⟨_, _, merged⟩ := asks.merged link
  exact asks.onGraph.virtual_last block merged.isParent

theorem ne_virtual_of_onChain (path : OnChain store block here)
    (ne : here ≠ block) : here ≠ virtualBlockHash := by
  rcases cases_tail path with same | ⟨_, path', link⟩
  · exact absurd same ne
  · exact (asks.along path').ne_virtual link

theorem inChainOf_real (real : block ≠ virtualBlockHash)
    (path : OnChain store block here) (realCurrent : here ≠ virtualBlockHash) :
    isInSelectedParentChainOf mdm here block = .ok true := by
  obtain ⟨_, answers, isAnswer⟩ := asks.onGraph.tree here
    (asks.along path).blockIn block asks.blockIn realCurrent real
  rw [isInSelectedParentChainOf, ok_bind (reachableHash_real real), answers, isAnswer.mpr path]

theorem childInChainOf_ok (path : OnChain store block here) (ne : here ≠ block) : ∃ child,
    childInSelectedParentChainOf mdm here block = .ok child ∧ OnChain store block child ∧
    SelectedParent store child here := by
  have realCurrent := ne_virtual_of_onChain asks path ne
  rw [childInSelectedParentChainOf]
  by_cases isVirtual : block = virtualBlockHash
  · rcases cases_head path with same | ⟨selected, link, rest⟩
    · exact absurd same.symm ne
    have asks' := asks.along (.single link)
    have realSelected := asks.ne_virtual link
    obtain ⟨data, found, chosen⟩ := link
    have reaches : reachableHash mdm block = .ok selected := by
      rw [reachableHash, if_pos isVirtual, ok_bind (getData_ok asks.onGraph found), chosen]
      rfl
    rw [ok_bind reaches]
    by_cases isParent : here = selected
    · rw [if_pos ⟨isVirtual, isParent⟩, isParent]
      exact ⟨block, rfl, .refl, data, found, chosen⟩
    rw [if_neg fun both => isParent both.2, ok_bind
      (inChainOf_real asks' realSelected rest realCurrent)]
    obtain ⟨child, finds, childPath, childLink⟩ := asks.onGraph.next selected
      asks'.blockIn realSelected here rest isParent
    exact ⟨child, finds, head ⟨data, found, chosen⟩ childPath, childLink⟩
  · rw [ok_bind (reachableHash_real isVirtual), if_neg fun both => isVirtual both.1, ok_bind
      (inChainOf_real asks isVirtual path realCurrent)]
    exact asks.onGraph.next block asks.blockIn isVirtual here path ne

theorem childInChainOf_self (real : block ≠ virtualBlockHash) :
    ∃ failure, childInSelectedParentChainOf mdm block block = .error failure := by
  obtain ⟨failure, fails⟩ := asks.onGraph.self block asks.blockIn
  refine ⟨failure, ?_⟩
  rw [childInSelectedParentChainOf, ok_bind (reachableHash_real real),
    if_neg fun both => real both.1, ok_bind (inChainOf_real asks real refl real)]
  exact fails

/-! ## The walk -/

theorem age_le_of_onChain (path : OnChain store block here) : age dag here ≤ age dag block := by
  induction path with
  | refl => exact le_rfl
  | tail path link ih =>
    obtain ⟨_, _, merged⟩ := (asks.along path).merged link
    exact Nat.le_trans (Nat.le_of_lt (asks.topo.age_lt merged.isParent)) ih

/--
The walk ends at a chain block whose successor is not below the required blue
score, and which is itself below it unless the walk never moved.
-/
theorem walkToRoot_ok {requiredBlueScore : UInt64} {rounds : Nat}
    (meets : requiredBlueScore ≤ blueScoreOf store block) (path : OnChain store block here)
    (ne : here ≠ block) (enough : age dag block < age dag here + rounds) : ∃ root next,
    walkToRoot mdm block requiredBlueScore rounds here = .ok root ∧ OnChain store block next ∧
    SelectedParent store next root ∧ requiredBlueScore ≤ blueScoreOf store next ∧
    (root = here ∨ blueScoreOf store root < requiredBlueScore) := by
  induction rounds generalizing here with
  | zero =>
    have older := age_le_of_onChain asks path
    omega
  | succ rounds ih =>
    obtain ⟨next, isNext, nextPath, link⟩ := childInChainOf_ok asks path ne
    obtain ⟨_, found, merged⟩ := (asks.along nextPath).merged link
    rw [walkToRoot, ok_bind isNext, ok_bind (getData_ok asks.onGraph found), ← blueScoreOf_eq found]
    by_cases ends : requiredBlueScore ≤ blueScoreOf store next
    · rw [if_pos ends]
      exact ⟨here, next, rfl, nextPath, link, ends, .inl rfl⟩
    have younger := asks.topo.age_lt merged.isParent
    have notBlock : next ≠ block := by
      rintro rfl
      exact ends meets
    rw [if_neg ends]
    obtain ⟨root, last, walks, lastPath, lastLink, isLast, moved⟩ := ih nextPath notBlock (by omega)
    refine ⟨root, last, walks, lastPath, lastLink, isLast, .inr ?_⟩
    rcases moved with rfl | below
    · exact UInt64.not_le.mp ends
    · exact below

end Graph

/-! ## The root -/

/-- The chain block of highest blue score below the required one. -/
structure IsMergeDepthRoot (store : GHOSTDAGDataStore) (block : DomainHash)
    (requiredBlueScore : UInt64) (root : DomainHash) : Prop where
  onChain : OnChain store block root
  below : blueScoreOf store root < requiredBlueScore
  highest : ∀ other, OnChain store block other → blueScoreOf store other < requiredBlueScore →
    blueScoreOf store other ≤ blueScoreOf store root

section Root

variable {dag : Dag DomainHash} {store : GHOSTDAGDataStore}
  {block root next : DomainHash} {requiredBlueScore : UInt64}
  (topo : Topological dag) (coloured : Coloured dag store) (fits : dag.length < 2 ^ 64)

include topo coloured fits

theorem root_of_next (blockIn : block ∈ nodes dag) (nextPath : OnChain store block next)
    (link : SelectedParent store next root) (isNext : requiredBlueScore ≤ blueScoreOf store next)
    (below : blueScoreOf store root < requiredBlueScore) :
    IsMergeDepthRoot store block requiredBlueScore root where
  onChain := nextPath.tail link
  below := below
  highest other otherPath otherBelow := by
    rcases onChain_comparable nextPath otherPath with under | above
    · rcases cases_head under with same | ⟨_, link', rest⟩
      · rw [same] at isNext
        exact absurd otherBelow (UInt64.not_lt.mpr isNext)
      · rw [← selected_unique link link'] at rest
        exact blueScoreOf_le topo coloured fits
          (onChain_mem topo coloured blockIn (nextPath.tail link)) rest
    · have otherIn := onChain_mem topo coloured blockIn otherPath
      have higher := blueScoreOf_le topo coloured fits otherIn above
      exact absurd otherBelow (UInt64.not_lt.mpr (UInt64.le_trans isNext higher))

end Root

/-! ## Earlier calls -/

section Earlier

variable {gm : GhostdagManager} {dag : Dag DomainHash}
  {store : GHOSTDAGDataStore} {mdm : MergeDepthManager} {roots : MergeDepthRoots} {rounds : Nat}
  {block here root selectedParent : DomainHash} {requiredBlueScore : UInt64}

variable (gm dag store) in
/-- The roots that calls on a graph leave, at any time and in any order. -/
inductive Left : MergeDepthRoots → Prop
  | fresh : Left ∅
  | asked {mdm : MergeDepthManager} {roots roots' : MergeDepthRoots}
      {rounds : Nat} {block root : DomainHash} {trusted : Bool}
      (left : Left roots) (onGraph : OnGraph dag store mdm)
      (isGenesis : mdm.genesisHash = gm.genesisHash) (blockIn : block ∈ nodes dag)
      (answers : mergeDepthRoot mdm roots rounds block trusted = .ok (root, roots')) : Left roots'

/-- Where a walk starts, from the stored root. -/
def startOf (store : GHOSTDAGDataStore) (pruningPoint stored : DomainHash)
    (requiredBlueScore : UInt64) : DomainHash :=
  if stored = virtualGenesisBlockHash ∨
      requiredBlueScore ≤ blueScoreOf store stored then pruningPoint
  else stored

variable (asks : Asks dag store mdm block)

include asks

theorem searchRoot_eq {stored : DomainHash} (isStored : storedRoot mdm roots selectedParent =
    .ok stored) (storedIn : stored ≠ virtualGenesisBlockHash → stored ∈ nodes dag) :
    searchRoot mdm roots rounds block selectedParent requiredBlueScore =
    walkToRoot mdm block requiredBlueScore rounds
    (startOf store mdm.pruningPoint stored requiredBlueScore) := by
  have hasData : ∀ other ∈ nodes dag, ∃ data, getGhostdagData mdm other = .ok data ∧
      blueScoreOf store other = data.blueScore := by
    intro other otherIn
    rcases asks.coloured other otherIn with ⟨data, found, -⟩
    exact ⟨data, getData_ok asks.onGraph found, blueScoreOf_eq found⟩
  rw [searchRoot, ok_bind isStored, startOf]
  by_cases isNone : stored = virtualGenesisBlockHash
  · obtain ⟨data, isData, -⟩ := hasData _ asks.onGraph.pruningPoint_mem
    dsimp only
    rw [if_pos isNone, if_pos (Or.inl isNone), ok_bind isData, ite_self]
  obtain ⟨data, isData, isScore⟩ := hasData stored (storedIn isNone)
  dsimp only
  rw [if_neg isNone, ok_bind isData, isScore]
  by_cases tooRecent : requiredBlueScore ≤ data.blueScore
  · rw [if_pos tooRecent, if_pos (Or.inr tooRecent)]
  · rw [if_neg tooRecent, if_neg (not_or.mpr ⟨isNone, tooRecent⟩)]

theorem walkToRoot_onChain (meets : requiredBlueScore ≤ blueScoreOf store block)
    (path : OnChain store block here) (real : here = block → block ≠ virtualBlockHash)
    (walks : walkToRoot mdm block requiredBlueScore rounds here = .ok root) :
    OnChain store block root := by
  induction rounds generalizing here with
  | zero => cases walks
  | succ rounds ih =>
    rw [walkToRoot] at walks
    by_cases isBlock : here = block
    · obtain ⟨_, fails⟩ := childInChainOf_self asks (real isBlock)
      rw [isBlock, fails] at walks
      cases walks
    obtain ⟨next, isNext, nextPath, link⟩ := childInChainOf_ok asks path isBlock
    obtain ⟨_, found, -⟩ := link
    rw [ok_bind isNext, ok_bind (getData_ok asks.onGraph found), ← blueScoreOf_eq found] at walks
    by_cases ends : requiredBlueScore ≤ blueScoreOf store next
    · rw [if_pos ends] at walks
      cases walks
      exact path
    · rw [if_neg ends] at walks
      refine ih nextPath (fun same => ?_) walks
      rw [same] at ends
      exact absurd meets ends

theorem onChain_of_inChainOf (currentIn : here ∈ nodes dag) (real : here ≠ virtualBlockHash)
    (answers : isInSelectedParentChainOf mdm here block = .ok true) : OnChain store block here := by
  rw [isInSelectedParentChainOf] at answers
  by_cases isVirtual : block = virtualBlockHash
  · rcases asks.coloured block asks.blockIn with ⟨data, found, -⟩
    rw [reachableHash, if_pos isVirtual, ok_bind (getData_ok asks.onGraph found)] at answers
    cases chosen : data.selectedParent with
    | none =>
      rw [chosen] at answers
      cases answers
    | some selected =>
      have link : SelectedParent store block selected := ⟨data, found, chosen⟩
      obtain ⟨answer, isAnswer, iff⟩ := asks.onGraph.tree here currentIn
        selected (asks.along (.single link)).blockIn real (asks.ne_virtual link)
      rw [chosen] at answers
      change mdm.isReachabilityTreeAncestorOf here selected = _ at answers
      rw [answers] at isAnswer
      cases isAnswer
      exact .head link (iff.mp rfl)
  · obtain ⟨answer, isAnswer, iff⟩ := asks.onGraph.tree here currentIn
      block asks.blockIn real isVirtual
    rw [ok_bind (reachableHash_real isVirtual), isAnswer] at answers
    cases answers
    exact iff.mp rfl

/-- Where the walk for a block starts. -/
theorem onChain_startOf {stored : DomainHash} (link : SelectedParent store block selectedParent)
    (storable : Storable store selectedParent stored)
    (pruningPath : OnChain store block mdm.pruningPoint) :
    OnChain store block (startOf store mdm.pruningPoint stored requiredBlueScore) ∧
    (startOf store mdm.pruningPoint stored requiredBlueScore = block → block ≠ virtualBlockHash) :=
    by
  rw [startOf]
  split_ifs with restarts
  · exact ⟨pruningPath, fun same => same ▸ asks.onGraph.pruningPoint_ne⟩
  have path := storable.resolve_left fun isNone => restarts (.inl isNone)
  refine ⟨.head link path, fun same => ?_⟩
  obtain ⟨_, _, merged⟩ := asks.merged link
  have older := asks.topo.age_lt merged.isParent
  have younger := age_le_of_onChain (asks.along (.single link)) path
  rw [same] at younger
  omega

theorem searchRoot_onChain (storables : ∀ block root, roots.lookup block = some root →
    Storable store block root) (link : SelectedParent store block selectedParent)
    (pruningPath : OnChain store block mdm.pruningPoint)
    (meets : requiredBlueScore ≤ blueScoreOf store block)
    (searches : searchRoot mdm roots rounds block selectedParent requiredBlueScore = .ok root) :
    OnChain store block root := by
  obtain ⟨stored, isStored, -⟩ := ok_of_bind searches
  have storable : Storable store selectedParent stored := by
    rw [storedRoot] at isStored
    cases found : roots.lookup selectedParent with
    | some root =>
      rw [found] at isStored
      cases isStored
      exact storables selectedParent _ found
    | none =>
      rw [found, Option.none_or] at isStored
      split at isStored
      · next point isPoint =>
          cases isStored
          exact asks.onGraph.finality selectedParent _ isPoint
      · cases isStored
  have storedIn : stored ≠ virtualGenesisBlockHash → stored ∈ nodes dag := by
    intro isBlock
    exact (asks.along (.head link (storable.resolve_left isBlock))).blockIn
  rw [searchRoot_eq asks isStored storedIn] at searches
  obtain ⟨path, real⟩ := onChain_startOf asks link storable pruningPath
  exact walkToRoot_onChain asks meets path real searches

/-- The root of a block is the virtual genesis or on its chain. -/
theorem calculateMergeDepthRoot_storable {trusted : Bool}
    (genesisPath : OnChain store block mdm.genesisHash)
    (storables : ∀ block root, roots.lookup block = some root → Storable store block root)
    (gives : calculateMergeDepthRoot mdm roots rounds block trusted = .ok root) :
    Storable store block root := by
  rw [calculateMergeDepthRoot] at gives
  split_ifs at gives with isTrusted
  · cases gives
    exact .inl rfl
  rcases asks.coloured block asks.blockIn with ⟨data, found, -⟩
  rw [ok_bind (getData_ok asks.onGraph found)] at gives
  obtain ⟨mergeDepth, -, gives⟩ := ok_of_bind gives
  by_cases isLow : data.blueScore < mergeDepth
  · rw [if_pos isLow] at gives
    cases gives
    exact .inr genesisPath
  rw [if_neg isLow] at gives
  obtain ⟨pruningData, -, gives⟩ := ok_of_bind gives
  by_cases isNear : data.blueScore < pruningData.blueScore + mergeDepth
  · rw [if_pos isNear] at gives
    cases gives
    exact .inl rfl
  rw [if_neg isNear] at gives
  obtain ⟨answer, answers, gives⟩ := ok_of_bind gives
  cases answer with
  | false =>
    cases gives
    exact .inl rfl
  | true =>
    rw [if_neg (by decide)] at gives
    cases chosen : data.selectedParent with
    | none =>
      rw [chosen] at gives
      cases gives
    | some selected =>
      rw [chosen] at gives
      dsimp only at gives
      split_ifs at gives
      · cases gives
        exact .inr genesisPath
      refine .inr (searchRoot_onChain asks storables ⟨data, found, chosen⟩ ?_ ?_ gives)
      · exact onChain_of_inChainOf asks
          asks.onGraph.pruningPoint_mem asks.onGraph.pruningPoint_ne answers
      · rw [blueScoreOf_eq found, UInt64.le_iff_toNat_le,
          UInt64.toNat_sub_of_le _ _ (UInt64.not_lt.mp isLow)]
        exact Nat.sub_le _ _

omit asks in
theorem Left.storable (graph : BlockGraph gm dag)
    (coloured : Coloured dag store) (left : Left gm dag store roots) :
    ∀ block root, roots.lookup block = some root → Storable store block root := by
  induction left with
  | fresh => exact nofun
  | @asked mdm roots roots' rounds block root trusted _ onGraph isGenesis blockIn answers ih =>
      rw [mergeDepthRoot] at answers
      split_ifs at answers with isVirtual
      · obtain ⟨_, -, isPair⟩ := ok_of_bind answers
        cases isPair
        exact ih
      cases found : roots.lookup block with
      | some stored =>
        rw [found] at answers
        cases answers
        exact ih
      | none =>
        rw [found] at answers
        obtain ⟨_, gives, isPair⟩ := ok_of_bind answers
        cases isPair
        have genesisPath : OnChain store block mdm.genesisHash := by
          rw [isGenesis]
          exact onChain_genesis graph coloured blockIn
        have isStorable := calculateMergeDepthRoot_storable
          ⟨graph.topological, coloured, onGraph, blockIn⟩ genesisPath ih gives
        intro other otherRoot isRoot
        rw [insert_ite] at isRoot
        split_ifs at isRoot with same
        · cases isRoot
          rw [same]
          exact isStorable
        · exact ih other otherRoot isRoot

end Earlier

/-! ## The calculation -/

section Calculation

variable {gm : GhostdagManager} {dag : Dag DomainHash}
  {store : GHOSTDAGDataStore} {mdm : MergeDepthManager} {roots : MergeDepthRoots} {walkRounds : Nat}
  {block selectedParent stored : DomainHash} {data : BlockGHOSTDAGData} {mergeDepth : UInt64}
  (asks : Asks dag store mdm block) (found : store.lookup block = some data)
  (selected : data.selectedParent = some selectedParent)
  (pruningPath : OnChain store block mdm.pruningPoint)
  (deep : (blueScoreOf store mdm.pruningPoint).toNat + mergeDepth.toNat ≤ data.blueScore.toNat)

include asks found pruningPath

theorem inChainOf_pruningPoint (selected : data.selectedParent = some selectedParent) :
    isInSelectedParentChainOf mdm mdm.pruningPoint block = .ok true := by
  by_cases isVirtual : block = virtualBlockHash
  · have link : SelectedParent store block selectedParent := ⟨data, found, selected⟩
    have realSelected := asks.ne_virtual link
    have rest : OnChain store selectedParent mdm.pruningPoint := by
      rcases cases_head pruningPath with
        same | ⟨_, link', rest⟩
      · exact absurd (same.symm.trans isVirtual) asks.onGraph.pruningPoint_ne
      · rwa [selected_unique link link']
    have answers := inChainOf_real (asks.along (.single link))
      realSelected rest asks.onGraph.pruningPoint_ne
    rw [isInSelectedParentChainOf, ok_bind (reachableHash_real realSelected)] at answers
    rw [isInSelectedParentChainOf, reachableHash, if_pos isVirtual,
      ok_bind (getData_ok asks.onGraph found), selected]
    exact answers
  · exact inChainOf_real asks isVirtual pruningPath asks.onGraph.pruningPoint_ne

include selected deep

/-- With a pruning point deep enough, a root is searched for. -/
theorem calculateMergeDepthRoot_eq (depth : mergeDepthForBlock mdm block data = .ok mergeDepth)
    (notGenesis : selectedParent ≠ mdm.genesisHash) :
    calculateMergeDepthRoot mdm roots walkRounds block false =
      searchRoot mdm roots walkRounds block selectedParent (data.blueScore - mergeDepth) := by
  rcases asks.coloured _ asks.onGraph.pruningPoint_mem with ⟨pruningData, foundPruning, -⟩
  have notLow : ¬ data.blueScore < mergeDepth := by
    rw [UInt64.lt_iff_toNat_lt]
    omega
  have notNear : ¬ data.blueScore < pruningData.blueScore + mergeDepth := by
    rw [blueScoreOf_eq foundPruning] at deep
    rw [UInt64.lt_iff_toNat_lt, UInt64.toNat_add]
    omega
  rw [calculateMergeDepthRoot, if_neg Bool.false_ne_true, ok_bind (getData_ok asks.onGraph found),
    ok_bind depth, if_neg notLow, ok_bind (getData_ok asks.onGraph foundPruning), if_neg notNear,
    ok_bind (inChainOf_pruningPoint asks found pruningPath selected), if_neg (by decide), selected]
  dsimp only
  rw [if_neg notGenesis]

end Calculation

section Exact

variable {gm : GhostdagManager} {dag : Dag DomainHash} {store : GHOSTDAGDataStore}
  {mdm : MergeDepthManager} {block here : DomainHash} {requiredBlueScore : UInt64} {rounds : Nat}
  (asks : Asks dag store mdm block) (fits : dag.length < 2 ^ 64) (path : OnChain store block here)
  (enough : dag.length ≤ rounds)

include asks fits path enough

theorem walkToRoot_isRoot (below : blueScoreOf store here < requiredBlueScore)
    (meets : requiredBlueScore ≤ blueScoreOf store block) : ∃ root,
    walkToRoot mdm block requiredBlueScore rounds here = .ok root ∧
    IsMergeDepthRoot store block requiredBlueScore root := by
  have ne : here ≠ block := by
    rintro rfl
    exact absurd below (UInt64.not_lt.mpr meets)
  have isOld := age_le dag block
  have isAged := age_pos (asks.along path).blockIn
  obtain ⟨root, _, walks, nextPath, link, isNext, moved⟩ := walkToRoot_ok asks meets path ne
    (by omega : age dag block < age dag here + rounds)
  refine ⟨root, walks, root_of_next asks.topo asks.coloured fits
    asks.blockIn nextPath link isNext ?_⟩
  rcases moved with rfl | isBelow
  · exact below
  · exact isBelow

/-- A walk from a block that is not below ends there, or fails. -/
theorem walkToRoot_stays (real : here ≠ virtualBlockHash)
    (notBelow : requiredBlueScore ≤ blueScoreOf store here) {root : DomainHash}
    (walks : walkToRoot mdm block requiredBlueScore rounds here = .ok root) : root = here := by
  cases rounds with
  | zero => cases walks
  | succ rounds =>
    rw [walkToRoot] at walks
    by_cases isBlock : here = block
    · subst isBlock
      obtain ⟨_, fails⟩ := childInChainOf_self asks real
      rw [fails] at walks
      cases walks
    obtain ⟨_, isNext, nextPath, link⟩ := childInChainOf_ok asks path isBlock
    have higher := blueScoreOf_lt asks.topo asks.coloured fits (asks.along nextPath).blockIn link
    obtain ⟨_, found, -⟩ := link
    rw [ok_bind isNext, ok_bind (getData_ok asks.onGraph found), ← blueScoreOf_eq found,
      if_pos (UInt64.le_trans notBelow (UInt64.le_of_lt higher))] at walks
    cases walks
    rfl

end Exact

/--
The root of a block is the chain block of highest blue score below the required
one, whatever calls were made before, unless the pruning point has exactly the
required blue score and the search starts from it.
-/
theorem calculateMergeDepthRoot_isRoot_iff {gm : GhostdagManager}
    {dag : Dag DomainHash} {store : GHOSTDAGDataStore} {rounds : Nat}
    (graph : BlockGraph gm dag) (answers : Answers gm dag) (enough : dag.length ≤ rounds)
    (colours : colourDag gm rounds dag = .ok store)
    (fits : dag.length < 2 ^ 64) {mdm : MergeDepthManager}
    (onGraph : OnGraph dag store mdm) {roots : MergeDepthRoots} (left : Left gm dag store roots)
    {block selectedParent stored : DomainHash} {data : BlockGHOSTDAGData}
    (blockIn : block ∈ nodes dag) (found : store.lookup block = some data)
    (selected : data.selectedParent = some selectedParent)
    (notGenesis : selectedParent ≠ mdm.genesisHash)
    (isStored : roots.lookup selectedParent = some stored)
    (pruningPath : OnChain store block mdm.pruningPoint) {mergeDepth : UInt64}
    (depth : mergeDepthForBlock mdm block data = .ok mergeDepth)
    (deep : (blueScoreOf store mdm.pruningPoint).toNat + mergeDepth.toNat ≤ data.blueScore.toNat)
    {walkRounds : Nat} (walksOn : dag.length ≤ walkRounds) :
    (∃ root, calculateMergeDepthRoot mdm roots walkRounds block false = .ok root ∧
      IsMergeDepthRoot store block (data.blueScore - mergeDepth) root) ↔
    (blueScoreOf store mdm.pruningPoint).toNat + mergeDepth.toNat ≠
        data.blueScore.toNat ∨ (stored ≠ virtualGenesisBlockHash ∧
        blueScoreOf store stored < data.blueScore - mergeDepth) := by
  have coloured : Coloured dag store := by
    rcases colourDag_eq graph answers enough with ⟨_, colours', coloured⟩
    rw [colours] at colours'
    cases colours'
    exact coloured
  have asks : Asks dag store mdm block := ⟨graph.topological, coloured, onGraph, blockIn⟩
  have link : SelectedParent store block selectedParent := ⟨data, found, selected⟩
  have storable := left.storable graph coloured selectedParent stored isStored
  have storedIn : stored ≠ virtualGenesisBlockHash → stored ∈ nodes dag :=
    fun isBlock => (asks.along (.head link (storable.resolve_left isBlock))).blockIn
  have readsStored : storedRoot mdm roots selectedParent = .ok stored := by
    rw [storedRoot, isStored]
    rfl
  have path : OnChain store block (startOf store mdm.pruningPoint stored
      (data.blueScore - mergeDepth)) := (onChain_startOf asks link storable pruningPath).1
  rw [calculateMergeDepthRoot_eq asks found selected pruningPath deep depth
    notGenesis, searchRoot_eq asks readsStored storedIn]
  have required : (data.blueScore - mergeDepth).toNat =
      data.blueScore.toNat - mergeDepth.toNat := by
    refine UInt64.toNat_sub_of_le _ _ ?_
    rw [UInt64.le_iff_toNat_le]
    omega
  constructor
  · rintro ⟨root, walks, isRoot⟩
    by_contra excluded
    rw [not_or, not_not, not_and_or, not_not, UInt64.not_lt] at excluded
    rw [startOf, if_pos excluded.2] at walks
    have notBelow : data.blueScore - mergeDepth ≤ blueScoreOf store mdm.pruningPoint := by
      rw [UInt64.le_iff_toNat_le]
      omega
    have stays := walkToRoot_stays asks fits pruningPath walksOn
      onGraph.pruningPoint_ne notBelow walks
    rw [← stays] at notBelow
    exact absurd isRoot.below (UInt64.not_lt.mpr notBelow)
  · intro holds
    refine walkToRoot_isRoot asks fits path walksOn ?_ ?_
    · rw [startOf]
      split_ifs with restarts
      · have notStored : ¬ (stored ≠ virtualGenesisBlockHash ∧
            blueScoreOf store stored < data.blueScore - mergeDepth) := by
          rintro ⟨isBlock, below⟩
          rcases restarts with isNone | tooRecent
          · exact isBlock isNone
          · exact absurd below (UInt64.not_lt.mpr tooRecent)
        have deeper := holds.resolve_right notStored
        rw [UInt64.lt_iff_toNat_lt]
        omega
      · rw [not_or, UInt64.not_le] at restarts
        exact restarts.2
    · rw [blueScoreOf_eq found, UInt64.le_iff_toNat_le]
      omega

/-! ## The manager of a graph -/

/-- The selected chain of a block, as far as the rounds go. -/
def chainOf (store : GHOSTDAGDataStore) : Nat → DomainHash → List DomainHash
  | 0, _ => []
  | rounds + 1, block =>
    block :: match (store.lookup block).bind BlockGHOSTDAGData.selectedParent with
      | some parent => chainOf store rounds parent
      | none => []

/-- A manager that answers by the selected chains. -/
def chainManager (store : GHOSTDAGDataStore) (rounds : Nat)
    (pruningPoint genesisHash : DomainHash) (mergeDepth : UInt64) : MergeDepthManager where
  ghostdagDataStore := store
  isReachabilityTreeAncestorOf ancestor block := .ok (ancestor ∈ chainOf store rounds block)
  findNextAncestor descendant ancestor :=
    match (chainOf store rounds descendant).find? fun child =>
        (store.lookup child).bind BlockGHOSTDAGData.selectedParent = some ancestor with
    | some child => .ok child
    | none => .error .reachabilityFailed
  daaScore _ := some 0
  finalityPoint _ := none
  pruningPoint := pruningPoint
  genesisHash := genesisHash
  mergeDepth := [mergeDepth]
  powScores := []
  ambientBlockVersion := 1

section Manager

variable {dag : Dag DomainHash} {store : GHOSTDAGDataStore}
  {block parent lower : DomainHash} {rounds : Nat}

theorem selectedParent_iff : SelectedParent store block parent ↔
      (store.lookup block).bind BlockGHOSTDAGData.selectedParent = some parent :=
  Option.bind_eq_some_iff.symm

variable (topo : Topological dag) (coloured : Coloured dag store)

include topo coloured

theorem mem_chainOf_iff (blockIn : block ∈ nodes dag) (enough : age dag block ≤ rounds) :
    lower ∈ chainOf store rounds block ↔ OnChain store block lower := by
  induction rounds generalizing block with
  | zero =>
    have isAged := age_pos blockIn
    omega
  | succ rounds ih =>
    rw [chainOf, List.mem_cons]
    cases isParent : (store.lookup block).bind selectedParent with
    | none =>
      constructor
      · rintro (rfl | mem)
        · exact .refl
        · cases mem
      · intro path
        rcases cases_head path with same | ⟨_, link, -⟩
        · exact .inl same.symm
        · rw [selectedParent_iff, isParent] at link
          cases link
    | some parent =>
      have link := selectedParent_iff.mpr isParent
      obtain ⟨_, found, merged⟩ := merged_of_link coloured blockIn link
      have younger := topo.age_lt merged.isParent
      rw [ih (topo.parent_mem merged.isParent) (by omega)]
      exact (onChain_merged found merged).symm

end Manager

/-! ## A chain of five blocks -/

/-- A chain; block five has blue score four. -/
def fiveBlocks : Dag DomainHash :=
  [(.filled 5, [.filled 4]), (.filled 4, [.filled 3]), (.filled 3, [.filled 2]),
    (.filled 2, [.filled 1]), (.filled 1, [])]

def fiveStore : GHOSTDAGDataStore :=
  (colourDag (managerOf fiveBlocks 1 (.filled 1)) 5 fiveBlocks).toOption.getD ∅

theorem topo_fiveBlocks : Topological fiveBlocks := by
  refine .cons (.cons (.cons (.cons (.cons .nil ?_ ?_) ?_ ?_) ?_ ?_) ?_ ?_) ?_ ?_
  all_goals decide +kernel

theorem blockGraph_fiveBlocks : BlockGraph (managerOf fiveBlocks 1 (.filled 1)) fiveBlocks :=
  blockGraph_managerOf topo_fiveBlocks (by decide +kernel) (by decide +kernel)

theorem colourDag_fiveBlocks : colourDag (managerOf fiveBlocks 1 (.filled 1)) 5 fiveBlocks =
    .ok fiveStore ∧ Coloured fiveBlocks fiveStore := by
  rcases colourDag_eq blockGraph_fiveBlocks answers_managerOf
    (Nat.le_refl 5) with ⟨store, colours, coloured⟩
  have isStore : fiveStore = store := by
    rw [fiveStore, colours]
    rfl
  rw [isStore]
  exact ⟨colours, coloured⟩

/-- The manager at a time when the pruning point was a given block. -/
def managerAt (pruningPoint : DomainHash) : MergeDepthManager :=
  chainManager fiveStore 5 pruningPoint (.filled 1) 2

variable {pruningPoint : DomainHash}

theorem onGraph_managerAt (pruningPointIn : pruningPoint ∈ nodes fiveBlocks) :
    OnGraph fiveBlocks fiveStore (managerAt pruningPoint) := by
  have noVirtual : virtualBlockHash ∉ nodes fiveBlocks := by decide +kernel
  have inChain : ∀ block ∈ nodes fiveBlocks, ∀ lower, lower ∈ chainOf fiveStore 5 block ↔
        OnChain fiveStore block lower := fun block blockIn _ =>
    mem_chainOf_iff topo_fiveBlocks colourDag_fiveBlocks.2 blockIn (age_le fiveBlocks block)
  have finds : ∀ block ∈ nodes fiveBlocks, ∀ upper ∈ chainOf fiveStore 5 block, upper ≠ block →
      ∃ child ∈ chainOf fiveStore 5 block, (managerAt (.filled 1)).findNextAncestor block upper =
      .ok child ∧ (fiveStore.lookup child).bind selectedParent = some upper := by
    decide +kernel
  have fails : ∀ block ∈ nodes fiveBlocks, (managerAt (.filled 1)).findNextAncestor block block =
      .error .reachabilityFailed := by
    decide +kernel
  refine ⟨rfl, pruningPointIn, fun isVirtual => noVirtual (isVirtual ▸
    pruningPointIn), fun _ link => noVirtual (topo_fiveBlocks.parent_mem
    link), ?_, ?_, fun block blockIn => ⟨_, fails block blockIn⟩, nofun⟩
  · intro upper _ block blockIn _ _
    refine ⟨_, rfl, ?_⟩
    rw [decide_eq_true_eq]
    exact inChain block blockIn upper
  · intro block blockIn _ upper path ne
    rcases finds block blockIn upper ((inChain block blockIn _).mpr path)
      ne with ⟨child, isIn, isFound, isParent⟩
    exact ⟨child, isFound, (inChain block blockIn child).mp isIn, selectedParent_iff.mpr isParent⟩

/-- The roots stored when the given blocks are asked about in turn. -/
def rootsAfter (pruningPoint : DomainHash) : List DomainHash → MergeDepthRoots
  | [] => ∅
  | block :: earlier =>
    match mergeDepthRoot (managerAt pruningPoint)
        (rootsAfter pruningPoint earlier) 5 block false with
    | .ok (_, roots) => roots
    | .error _ => rootsAfter pruningPoint earlier

theorem left_rootsAfter (pruningPointIn : pruningPoint ∈ nodes fiveBlocks)
    (blocks : List DomainHash) (blocksIn : ∀ block ∈ blocks, block ∈ nodes fiveBlocks) :
    Left (managerOf fiveBlocks 1 (.filled 1)) fiveBlocks fiveStore
    (rootsAfter pruningPoint blocks) := by
  induction blocks with
  | nil => exact .fresh
  | cons block prior ih =>
    have left := ih fun other isIn => blocksIn other (.tail block isIn)
    rw [rootsAfter]
    split
    · next answers =>
        exact .asked left (onGraph_managerAt pruningPointIn) rfl (blocksIn block (.head _)) answers
    · exact left

/-- With the genesis as pruning point the root of block five is right. -/
theorem calculateMergeDepthRoot_isRoot_fiveBlocks :
    ∃ root, calculateMergeDepthRoot (managerAt (.filled 1))
        (rootsAfter (.filled 1) [.filled 4, .filled 3, .filled 2]) 5 (.filled 5) false = .ok root ∧
      IsMergeDepthRoot fiveStore (.filled 5) 2 root := by
  have stored : (fiveStore.lookup (.filled 5)).any (fun data => data.selectedParent =
      some (.filled 4) ∧ data.blueScore = 4 ∧ mergeDepthForBlock (managerAt (.filled 1))
      (.filled 5) data = .ok 2) = true := by
    decide +kernel
  obtain ⟨data, found, isData⟩ := Option.any_eq_true _ _ |>.mp stored
  obtain ⟨selected, isScore, depth⟩ := of_decide_eq_true isData
  have isRoot := calculateMergeDepthRoot_isRoot_iff blockGraph_fiveBlocks answers_managerOf
    (Nat.le_refl 5) colourDag_fiveBlocks.1 (by decide)
    (onGraph_managerAt (by decide +kernel : .filled 1 ∈ nodes fiveBlocks))
    (left_rootsAfter (by decide +kernel : .filled 1 ∈ nodes fiveBlocks)
    [.filled 4, .filled 3, .filled 2] (by decide +kernel))
    (by decide +kernel : .filled 5 ∈ nodes fiveBlocks) found selected (by decide +kernel)
    (by decide +kernel : _ = some (.filled 1))
    (onChain_genesis blockGraph_fiveBlocks colourDag_fiveBlocks.2 (by decide +kernel)) depth
    (by rw [isScore]; decide +kernel) (Nat.le_refl 5)
  rw [isScore] at isRoot
  exact isRoot.mpr (.inl (by decide +kernel))

/--
Two histories of one chain, with block three as pruning point in the end: block
four was asked about when it was so already, or when the genesis was.  The root
of block five is block three after the first and block two after the second, and
block three is not below the required blue score.
-/
theorem root_depends_on_history : Left (managerOf fiveBlocks 1 (.filled 1)) fiveBlocks fiveStore
        (rootsAfter (.filled 3) [.filled 4]) ∧
      calculateMergeDepthRoot (managerAt (.filled 3))
        (rootsAfter (.filled 3) [.filled 4]) 5 (.filled 5) false = .ok (.filled 3) ∧
      Left (managerOf fiveBlocks 1 (.filled 1)) fiveBlocks fiveStore
        (rootsAfter (.filled 1) [.filled 4, .filled 3, .filled 2]) ∧
      calculateMergeDepthRoot (managerAt (.filled 3))
        (rootsAfter (.filled 1) [.filled 4, .filled 3, .filled 2]) 5 (.filled 5) false =
        .ok (.filled 2) ∧
      ¬ IsMergeDepthRoot fiveStore (.filled 5)
        (blueScoreOf fiveStore (.filled 5) - 2) (.filled 3) := by
  refine ⟨left_rootsAfter (by decide +kernel) _ (by decide +kernel),
    by decide +kernel, left_rootsAfter (by decide +kernel) _
    (by decide +kernel), by decide +kernel, fun isRoot => ?_⟩
  exact absurd isRoot.below (by decide +kernel)

end Htnd.MergeDepth.Roots
