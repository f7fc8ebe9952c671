import Htnd.Ghostdag.MergeSet

/-!
# Colouring the merge set

For a graph whose blocks have data, every candidate is decided: the walk down
the selected chain ends at the latest at the root, which is an ancestor of
every candidate.  Each candidate becomes blue or red.  The sizes that are
looked up for a candidate belong to blues in the past of the selected parent;
neither the selected parent nor the candidates coloured before are among them,
so the entry of the selected parent is not touched.
-/

namespace Htnd.Ghostdag.Colouring

open Lib.RangeLoops Lib.BlockDag Lib.Fallible Utxo.Entry Manager MergeSet List

/-- The data of a block has its selected parent and its blues in the graph. -/
structure DataOk (dag : Dag DomainHash) (block : DomainHash) (data : BlockGHOSTDAGData) : Prop where
  selected : ∀ selectedParent, data.selectedParent = some selectedParent →
    IsParent dag block selectedParent
  root : data.selectedParent = none → ∀ other ∈ nodes dag, block = other ∨ InPast dag block other
  blues : ∀ blue ∈ data.mergeSetBlues, InPast dag blue block

/-- There is data for the blocks of a graph. -/
def StoreOk (dag : Dag DomainHash) (store : GHOSTDAGDataStore) : Prop :=
  ∀ block ∈ nodes dag, ∃ data, getData store block = .ok data ∧ DataOk dag block data

variable {blues : List DomainHash}

section Colouring

variable {gm : GhostdagManager} {dag : Dag DomainHash} {store : GHOSTDAGDataStore}
  {blueCandidate : DomainHash} (k : KType) (blockVersion : UInt16) (topo : Topological dag)
  (exact : Exact gm dag) (storeOk : StoreOk dag store)

include storeOk

theorem walkForSize_total (block : DomainHash) (steps : Nat) {here : BlockGHOSTDAGData}
    (inDag : ∀ selectedParent, here.selectedParent = some selectedParent →
    selectedParent ∈ nodes dag) (topo : Topological dag) : ∃ size,
    walkForSize gm store block steps here = .ok size := by
  fun_induction walkForSize gm store block steps here with
  | case1 _ _ size => exact ⟨size, rfl⟩
  | case2 | case3 | case4 => exact ⟨0, rfl⟩
  | case5 here _ steps selectedParent chosen _ ih =>
    rcases storeOk selectedParent (inDag selectedParent chosen) with ⟨next, read, nextOk⟩
    rw [ok_bind read]
    exact ih next fun above isAbove => topo.parent_mem (nextOk.selected above isAbove)

include topo exact

/-- The keys that may be added while a chain block is looked at. -/
def AddsOnly (Allowed : DomainHash → Prop) (candidate : Candidate) : Prop :=
  ∀ key, ¬ Allowed key → candidate.bluesAnticoneSizes.lookup key = none

variable (candidateIn : blueCandidate ∈ nodes dag)

include candidateIn

variable {chainData : BlockGHOSTDAGData} {Allowed : DomainHash → Prop} {candidate : Candidate}

/-- The blues of a chain block are checked. -/
theorem checkBlues_eq (inDag : ∀ chosen, chainData.selectedParent = some chosen →
      chosen ∈ nodes dag) (bluesIn : ∀ blue ∈ blues, blue ∈ nodes dag ∧ Allowed blue)
      (addsOnly : AddsOnly Allowed candidate) : ∃ verdict,
      checkBlues gm store blueCandidate chainData k blockVersion blues candidate = .ok verdict ∧
      (verdict = .red ∨ ∃ candidate', verdict = .undecided candidate' ∧
      AddsOnly Allowed candidate') := by
  induction blues generalizing candidate with
  | nil => exact ⟨_, rfl, .inr ⟨candidate, rfl, addsOnly⟩⟩
  | cons block blues ih =>
    have restIn := fun blue isBlue => bluesIn blue (.tail block isBlue)
    rcases bluesIn block (.head _) with ⟨blockIn, may⟩
    rcases exact.isAncestorOf block blockIn blueCandidate candidateIn with ⟨answer, answers, -⟩
    rw [checkBlues, ok_bind answers]
    cases answer with
    | true => exact ih restIn addsOnly
    | false =>
      have sizes : ∃ size, blueAnticoneSize gm store block chainData k = .ok size :=
        walkForSize_total storeOk block _ inDag topo
      rcases sizes with ⟨size, sizes⟩
      simp only [Bool.false_eq_true, if_false]
      rw [ok_bind sizes]
      generalize (if blockVersion ≥ 7 then k + 1 else k) = limit
      split_ifs with exceeds full larger
      · exact ⟨.red, rfl, .inl rfl⟩
      · exact ⟨.red, rfl, .inl rfl⟩
      · exact ⟨.red, rfl, .inl rfl⟩
      refine ih restIn fun key notAllowed => ?_
      rw [insert_ite, if_neg]
      · exact addsOnly key notAllowed
      · rintro rfl
        exact notAllowed may

/-- The walk down the selected chain ends. -/
theorem checkChain_eq (rounds : Nat) {hash : DomainHash} (chainIn : hash ∈ nodes dag)
    (dataOk : DataOk dag hash chainData) (enough : age dag hash ≤ rounds)
    (may : ∀ block, InPast dag block hash → Allowed block) (addsOnly : AddsOnly Allowed candidate) :
    ∃ result, checkChain gm store blueCandidate k blockVersion rounds hash chainData candidate =
    .ok result ∧ ∀ candidate', result = some candidate' → AddsOnly Allowed candidate' := by
  induction rounds generalizing hash chainData candidate with
  | zero =>
    have pos := age_pos chainIn
    omega
  | succ rounds ih =>
    rcases exact.isAncestorOf hash chainIn blueCandidate candidateIn with ⟨answer, answers, iff⟩
    rw [checkChain, checkBlueCandidateWithChainBlock, ok_bind answers]
    cases answer with
    | true =>
      refine ⟨some candidate, rfl, ?_⟩
      rintro candidate' ⟨⟩
      exact addsOnly
    | false =>
      have notAncestor : ¬ (hash = blueCandidate ∨ InPast dag hash blueCandidate) :=
        fun above => Bool.false_ne_true (iff.mpr above)
      have inDag : ∀ selectedParent, chainData.selectedParent = some selectedParent →
          selectedParent ∈ nodes dag := fun above isAbove => topo.parent_mem
          (dataOk.selected above isAbove)
      rcases checkBlues_eq k blockVersion topo exact storeOk candidateIn inDag
        (fun blue isBlue => ⟨topo.ancestor_mem (dataOk.blues blue isBlue),
        may blue (dataOk.blues blue isBlue)⟩) addsOnly with ⟨_, checks,
        isRed | ⟨candidate', isUndecided, addsOnly'⟩⟩
      · rw [isRed] at checks
        simp only [Bool.false_eq_true, if_false]
        rw [ok_bind checks]
        exact ⟨none, rfl, nofun⟩
      rw [isUndecided] at checks
      simp only [Bool.false_eq_true, if_false]
      rw [ok_bind checks]
      cases chosen : chainData.selectedParent with
      | none => exact absurd (dataOk.root chosen blueCandidate candidateIn) notAncestor
      | some selectedParent =>
        have link := dataOk.selected selectedParent chosen
        rcases storeOk selectedParent (inDag selectedParent chosen) with ⟨_, read, nextOk⟩
        have older := topo.age_lt link
        dsimp only
        rw [ok_bind read]
        exact ih (inDag selectedParent chosen) nextOk (by omega)
          (fun block past => may block (past.trans (.of_parent link))) addsOnly'

end Colouring

/-! ## Recording the sizes -/

theorem lookup_recordSizes {sizes candidateSizes : FiniteMap DomainHash KType}
    {block : DomainHash} (absent : candidateSizes.lookup block = none) :
    (recordSizes sizes candidateSizes).lookup block = sizes.lookup block := by
  rw [recordSizes]
  have notKey : ∀ item ∈ candidateSizes.entries, block ≠ item.1 := by
    rintro item isItem rfl
    rw [AList.lookup_eq_none] at absent
    exact absent (mem_keys_of_mem isItem)
  generalize candidateSizes.entries = items at notKey
  induction items generalizing sizes with
  | nil => rfl
  | cons item items ih =>
    rw [foldl_cons, ih fun other isIn => notKey other (.tail item isIn),
      insert_ite, if_neg (notKey item (.head _))]

/-! ## The colouring loop -/

/-- What the colouring loop does to the data of the new block. -/
structure Colours (selectedParent : DomainHash) (mergeSet : List DomainHash)
    (before after : BlockGHOSTDAGData) : Prop where
  selected : after.selectedParent = before.selectedParent
  split : ∃ blues reds, (blues ++ reds).Perm mergeSet ∧ after.mergeSetBlues =
    before.mergeSetBlues ++ blues ∧ after.mergeSetReds = before.mergeSetReds ++ reds ∧
    (blues = [] → after.bluesAnticoneSizes = before.bluesAnticoneSizes)
  untouched : after.bluesAnticoneSizes.lookup selectedParent =
    before.bluesAnticoneSizes.lookup selectedParent

section Loop

variable {gm : GhostdagManager} {dag : Dag DomainHash}
  {store : GHOSTDAGDataStore} (k : KType) (blockVersion : UInt16)
  (topo : Topological dag) (exact : Exact gm dag) (storeOk : StoreOk dag store)

include topo exact storeOk

theorem colourMergeSet_eq {selectedParent : DomainHash} (parentIn : selectedParent ∈ nodes dag)
    {rounds : Nat} (enough : dag.length ≤ rounds) {merged : List DomainHash}
    (inDag : ∀ block ∈ merged, block ∈ nodes dag ∧ block ≠ selectedParent)
    {newData : BlockGHOSTDAGData} (chosen : newData.selectedParent = some selectedParent) :
    ∃ coloured, colourMergeSet gm rounds store k blockVersion merged newData = .ok coloured ∧
    Colours selectedParent merged newData coloured := by
  induction merged generalizing newData with
  | nil =>
    refine ⟨newData, rfl, rfl, ⟨[], [], List.Perm.refl _, ?_⟩, rfl⟩
    simp
  | cons blueCandidate merged ih =>
    have restIn := fun block isBlock => inDag block (.tail blueCandidate isBlock)
    rcases inDag blueCandidate (.head _) with ⟨candidateIn, ne⟩
    obtain ⟨result, checks, addsOnly⟩ : ∃ result, checkBlueCandidate gm rounds store newData
        blueCandidate k blockVersion = .ok result ∧ ∀ candidate, result = some candidate →
        AddsOnly (InPast dag · selectedParent) candidate := by
      rw [checkBlueCandidate]
      split_ifs
      · exact ⟨none, rfl, nofun⟩
      rcases storeOk selectedParent parentIn with ⟨_, read, dataOk⟩
      rw [chosen]
      dsimp only
      rw [ok_bind read]
      exact checkChain_eq k blockVersion topo exact storeOk candidateIn rounds parentIn dataOk
        ((age_le dag selectedParent).trans enough) (fun _ past => past) (fun _ _ => rfl)
    rw [colourMergeSet, ok_bind checks]
    cases result with
    | none =>
      rcases @ih restIn { newData with
        mergeSetReds := newData.mergeSetReds ++ [blueCandidate] }
        chosen with ⟨coloured, colours, same, split, frame⟩
      rcases split with ⟨blues, reds, perm, isBlues, isReds, sizes⟩
      refine ⟨coloured, colours, same, ⟨blues, blueCandidate :: reds,
        ?_, isBlues, ?_, sizes⟩, frame⟩
      · exact perm_middle.trans (perm.cons blueCandidate)
      · rw [isReds, append_assoc, singleton_append]
    | some candidate =>
      rcases @ih restIn { newData with
        mergeSetBlues := newData.mergeSetBlues ++ [blueCandidate]
        bluesAnticoneSizes := recordSizes (newData.bluesAnticoneSizes.insert blueCandidate
          candidate.anticoneSize) candidate.bluesAnticoneSizes }
        chosen with ⟨coloured, colours, same, split, frame⟩
      rcases split with ⟨blues, reds, perm, isBlues, isReds, -⟩
      refine ⟨coloured, colours, same, ⟨blueCandidate :: blues, reds,
        perm.cons blueCandidate, ?_, isReds, nofun⟩, ?_⟩
      · rw [isBlues, append_assoc, singleton_append]
      · have absent := addsOnly candidate rfl selectedParent topo.irrefl
        rw [frame, lookup_recordSizes absent, insert_ite, if_neg ne.symm]

end Loop

/-! ## The selected parent -/

section SelectedParent

variable {store : GHOSTDAGDataStore}

/-- Two blocks with data are compared. -/
theorem less_total {blockHashA blockHashB : DomainHash} {dataA dataB : BlockGHOSTDAGData}
    (readA : getData store blockHashA = .ok dataA) (readB : getData store blockHashB = .ok dataB) :
    ∃ answer, less store blockHashA blockHashB = .ok answer := by
  have chooses : ∃ chosen, chooseSelectedParent store [blockHashA, blockHashB] = .ok chosen := by
    rw [chooseSelectedParent, ok_bind readA, chooseAmong, ok_bind readA]
    split_ifs
    all_goals
      rw [chooseAmong, ok_bind readB]
      split_ifs
      · exact ⟨_, rfl⟩
      · exact ⟨_, rfl⟩
  rcases chooses with ⟨chosen, chooses⟩
  rw [less, ok_bind chooses]
  exact ⟨_, rfl⟩

variable {hashes : List DomainHash}

theorem findAmong_eq
    (hasData : ∀ parent ∈ hashes, ∃ data, getData store parent = .ok data) {chosen : DomainHash}
    {selectedData : BlockGHOSTDAGData} (read : getData store chosen = .ok selectedData) : ∃ found,
    findAmong store hashes (some chosen) = .ok (some found) ∧ found ∈ chosen :: hashes := by
  induction hashes generalizing chosen selectedData with
  | nil => exact ⟨chosen, rfl, .head _⟩
  | cons hash hashes ih =>
    have restData := fun parent link => hasData parent (.tail hash link)
    rcases hasData hash (.head _) with ⟨data, readHash⟩
    rcases less_total read readHash with ⟨answer, compares⟩
    rw [findAmong, ok_bind compares]
    cases answer with
    | true =>
      rcases ih restData readHash with ⟨found, finds, isFound⟩
      exact ⟨found, finds, .tail _ isFound⟩
    | false =>
      rcases ih restData read with ⟨found, finds, isFound⟩
      refine ⟨found, finds, ?_⟩
      rcases mem_cons.mp isFound with same | isRest
      · exact mem_cons.mpr (.inl same)
      · exact .tail _ (.tail _ isRest)

theorem findSelectedParent_eq (notGenesis : hashes ≠ [])
    (hasData : ∀ parent ∈ hashes, ∃ data, getData store parent = .ok data) : ∃ chosen ∈ hashes,
    findSelectedParent store hashes = .ok (some chosen) := by
  cases hashes with
  | nil => exact absurd rfl notGenesis
  | cons first rest =>
    rcases hasData first (.head _) with ⟨data, read⟩
    rcases findAmong_eq (fun parent link => hasData parent (.tail first link)) read with
      ⟨found, finds, isFound⟩
    exact ⟨found, isFound, finds⟩

end SelectedParent

/-- The work of blues with headers is added up. -/
theorem workOfBlues_total {gm : GhostdagManager}
    (headers : ∀ blue ∈ blues, blue ≠ virtualGenesisBlockHash → ∃ bits, gm.headerBits blue =
    .ok bits) : ∃ work, workOfBlues gm blues = .ok work := by
  induction blues with
  | nil => exact ⟨0, rfl⟩
  | cons blue blues ih =>
    rcases ih fun other isIn => headers other (.tail blue isIn) with ⟨work, works⟩
    rw [workOfBlues]
    split_ifs with isVirtual
    · exact ⟨work, works⟩
    · rcases headers blue (.head _) isVirtual with ⟨bits, hasBits⟩
      rw [ok_bind hasBits, ok_bind works]
      exact ⟨_, rfl⟩

end Htnd.Ghostdag.Colouring
