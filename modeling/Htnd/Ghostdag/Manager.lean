import Htnd.Lib.RangeLoops
import Htnd.Utxo.Entry

/-!
# The GHOSTDAG manager

The model of `GHOSTDAG`: the selected parent is the parent with the most blue
work, the merge set is found by a queue search that goes no further at
ancestors of the selected parent, and its blocks are coloured one by one in
the order of their blue work.

The block relations, the reachability queries, the headers, the version of a
block and the rank `CalculateRank` gives it are what the manager is built
with.  Reading through `nil` or past the end of a slice, which ends the
program, is an error here; a walk that needs more rounds than it is given is
unfinished.
-/

namespace Htnd.Ghostdag.Manager

open Lib.RangeLoops Utxo.Entry

abbrev KType := UInt8

/-- The errors of the GHOSTDAG manager. -/
inductive GhostdagError where
  | blockRelationNotFound (blockHash : DomainHash)
  | ghostdagDataNotFound (blockHash : DomainHash)
  | headerNotFound (blockHash : DomainHash)
  | reachabilityFailed (blockHashA blockHashB : DomainHash)
  | blockVersionFailed
  | rankFailed
  | noBlockHashes
  | selectedParentNil
  | nilHash
  | indexOutOfRange
  | unfinished
deriving DecidableEq

structure BlockGHOSTDAGData where
  blueScore : UInt64
  blueWork : Nat
  dynamicK : KType
  selectedParent : Option DomainHash
  mergeSetBlues : List DomainHash
  mergeSetReds : List DomainHash
  bluesAnticoneSizes : FiniteMap DomainHash KType

abbrev GHOSTDAGDataStore := FiniteMap DomainHash BlockGHOSTDAGData

/-- `ghostdagDataStore.Get`. -/
def getData (store : GHOSTDAGDataStore) (blockHash : DomainHash) :
    Except GhostdagError BlockGHOSTDAGData :=
  match store.lookup blockHash with
  | some data => .ok data
  | none => .error (.ghostdagDataNotFound blockHash)

/-- `ghostdagManager`, with what it reads from other managers and stores. -/
structure GhostdagManager where
  parents : DomainHash → Except GhostdagError (List DomainHash)
  isAncestorOf : DomainHash → DomainHash → Except GhostdagError Bool
  headerBits : DomainHash → Except GhostdagError UInt32
  blockVersion : Option DomainHash → Except GhostdagError UInt16
  calculateRank : List DomainHash → Except GhostdagError Nat
  k : List KType
  genesisHash : DomainHash

/-! ## Work -/

def compactToBig (compact : UInt32) : Int :=
  let mantissa := (compact &&& 0x007fffff).toNat
  let exponent := (compact >>> 24).toNat
  let magnitude : Nat :=
    if exponent ≤ 3 then mantissa >>> (8 * (3 - exponent))
    else mantissa <<< (8 * (exponent - 3))
  if compact &&& 0x00800000 ≠ 0 then -(magnitude : Int) else magnitude

def calcWork (bits : UInt32) : Nat :=
  let difficultyNum := compactToBig bits
  if difficultyNum ≤ 0 then 0 else 2 ^ 256 / (difficultyNum.toNat + 1)

/-! ## Comparing blocks -/

/-- `DomainHash.Less`. -/
def hashLess (hash other : DomainHash) : Bool := hash.hashArray < other.hashArray

/-- `Less`. -/
def blueWorkLess (blockHashA : DomainHash) (ghostdagDataA : BlockGHOSTDAGData)
    (blockHashB : DomainHash) (ghostdagDataB : BlockGHOSTDAGData) : Bool :=
  if ghostdagDataA.blueWork < ghostdagDataB.blueWork then true
  else if ghostdagDataB.blueWork < ghostdagDataA.blueWork then false
  else hashLess blockHashA blockHashB

/-- The loop of `ChooseSelectedParent`. -/
def chooseAmong (store : GHOSTDAGDataStore) : List DomainHash → DomainHash → BlockGHOSTDAGData →
    Except GhostdagError DomainHash
  | [], selectedParent, _ => .ok selectedParent
  | blockHash :: rest, selectedParent, selectedParentData => do
    let blockData ← getData store blockHash
    if blueWorkLess selectedParent selectedParentData blockHash blockData
    then chooseAmong store rest blockHash blockData
    else chooseAmong store rest selectedParent selectedParentData

/-- The parent of the most blue work. -/
def chooseSelectedParent (store : GHOSTDAGDataStore)
    (blockHashes : List DomainHash) : Except GhostdagError DomainHash :=
  match blockHashes with
  | [] => .error .noBlockHashes
  | first :: _ => do
    let firstData ← getData store first
    chooseAmong store blockHashes first firstData

def less (store : GHOSTDAGDataStore) (blockHashA blockHashB : DomainHash) :
    Except GhostdagError Bool := do
  let chosen ← chooseSelectedParent store [blockHashA, blockHashB]
  return chosen = blockHashB

/-- The loop of `findSelectedParent`. -/
def findAmong (store : GHOSTDAGDataStore) : List DomainHash → Option DomainHash →
    Except GhostdagError (Option DomainHash)
  | [], selectedParent => .ok selectedParent
  | hash :: rest, none => findAmong store rest (some hash)
  | hash :: rest, some selectedParent => do
    if ← less store selectedParent hash then
      findAmong store rest (some hash)
    else findAmong store rest (some selectedParent)

def findSelectedParent (store : GHOSTDAGDataStore) (parentHashes : List DomainHash) :
    Except GhostdagError (Option DomainHash) :=
  findAmong store parentHashes none

/-! ## The merge set -/

/-- The order of `sortMergeSet`, on blocks with their data. -/
def sortsBefore (first second : DomainHash × BlockGHOSTDAGData) : Prop :=
  blueWorkLess second.1 second.2 first.1 first.2 = false

instance : DecidableRel sortsBefore := fun _ _ => inferInstanceAs (Decidable (_ = false))

/--
`sortMergeSet`.  Fewer than two blocks are not compared; among more of them
each one is, so that its data is read.  The blocks differ and are compared by
blue work and hash, so every sorting gives the same list.
-/
def sortMergeSet (store : GHOSTDAGDataStore) (mergeSet : List DomainHash) :
    Except GhostdagError (List DomainHash) :=
  if mergeSet.length < 2 then .ok mergeSet
  else do
    let withData ← mergeSet.mapM fun blockHash => do
      let data ← getData store blockHash
      return (blockHash, data)
    return (withData.insertionSort sortsBefore).map Prod.fst

/-- The maps and slices of `mergeSetWithoutSelectedParent`. -/
structure MergeSetSearch where
  mergeSet : List DomainHash
  selectedParentPast : List DomainHash
  queue : List DomainHash

section Manager

variable (gm : GhostdagManager)

/-- The loop over the parents of one block of the queue. -/
def visitParents (selectedParent : DomainHash) :
    List DomainHash → MergeSetSearch → Except GhostdagError MergeSetSearch
  | [], search => .ok search
  | parent :: rest, search =>
    if parent ∈ search.mergeSet then
      visitParents selectedParent rest search
    else if parent ∈ search.selectedParentPast then
      visitParents selectedParent rest search
    else do
      if ← gm.isAncestorOf parent selectedParent then
        visitParents selectedParent rest
          { search with selectedParentPast := parent :: search.selectedParentPast }
      else
        visitParents selectedParent rest
          { search with
            mergeSet := search.mergeSet ++ [parent]
            queue := search.queue ++ [parent] }

/-- The queue loop of `mergeSetWithoutSelectedParent`. -/
def searchMergeSet (selectedParent : DomainHash) :
    Nat → MergeSetSearch → Except GhostdagError MergeSetSearch
  | rounds, search =>
    match search.queue with
    | [] => .ok search
    | current :: queue =>
      match rounds with
      | 0 => .error .unfinished
      | rounds + 1 => do
        let currentParents ← gm.parents current
        let search ← visitParents gm selectedParent currentParents
          { search with queue }
        searchMergeSet selectedParent rounds search

variable (rounds : Nat) (store : GHOSTDAGDataStore)

def mergeSetWithoutSelectedParent (selectedParent : DomainHash) (blockParents : List DomainHash) :
    Except GhostdagError (List DomainHash) := do
  let others := blockParents.filter (· ≠ selectedParent)
  let search ← searchMergeSet gm selectedParent rounds ⟨others, [], others⟩
  sortMergeSet store search.mergeSet

/-! ## Colouring -/

/-- The walk of `blueAnticoneSize`, with the steps it has left. -/
def walkForSize (block : DomainHash) : Nat → BlockGHOSTDAGData → Except GhostdagError KType
  | steps, current =>
    match current.bluesAnticoneSizes.lookup block with
    | some blueAnticoneSize => .ok blueAnticoneSize
    | none =>
      match steps, current.selectedParent with
      | 0, _ => .ok 0
      | _ + 1, none => .ok 0
      | steps + 1, some selectedParent =>
        if selectedParent = gm.genesisHash ∨ selectedParent = virtualGenesisBlockHash then .ok 0
        else do
          let next ← getData store selectedParent
          walkForSize block steps next

/-- `blueAnticoneSize`; four times `k` is taken as a byte. -/
def blueAnticoneSize (block : DomainHash) (context : BlockGHOSTDAGData)
    (k : KType) : Except GhostdagError KType :=
  walkForSize gm store block ((4 * k).toNat + 1) context

/-- What is known of a candidate while the chain is walked. -/
structure Candidate where
  bluesAnticoneSizes : FiniteMap DomainHash KType
  anticoneSize : KType

/-- What a chain block says about a candidate. -/
inductive Verdict where
  | blue (candidate : Candidate)
  | red
  | undecided (candidate : Candidate)

/-- The loop of `checkBlueCandidateWithChainBlock` over the blues. -/
def checkBlues (blueCandidate : DomainHash) (chainData : BlockGHOSTDAGData)
    (k : KType) (blockVersion : UInt16) : List DomainHash → Candidate → Except GhostdagError Verdict
  | [], candidate => .ok (.undecided candidate)
  | block :: rest, candidate => do
    if ← gm.isAncestorOf block blueCandidate then
      checkBlues blueCandidate chainData k blockVersion rest candidate
    else
      let size ← blueAnticoneSize gm store block chainData k
      let candidate : Candidate := ⟨candidate.bluesAnticoneSizes.insert block size,
          candidate.anticoneSize + 1⟩
      let maxAnticoneSize := if blockVersion ≥ 7 then k + 1 else k
      if candidate.anticoneSize > maxAnticoneSize then return .red
      else if size = maxAnticoneSize then return .red
      else if size > maxAnticoneSize then return .red
      else
        checkBlues blueCandidate chainData k blockVersion rest candidate

/-- `checkBlueCandidateWithChainBlock`; a chain block always has a hash. -/
def checkBlueCandidateWithChainBlock (chainHash : DomainHash)
    (chainData : BlockGHOSTDAGData) (blueCandidate : DomainHash) (k : KType)
    (blockVersion : UInt16) (candidate : Candidate) : Except GhostdagError Verdict := do
  if ← gm.isAncestorOf chainHash blueCandidate then
    return .blue candidate
  else
    checkBlues gm store blueCandidate chainData k blockVersion chainData.mergeSetBlues candidate

/-- The loop of `checkBlueCandidate` down the selected chain. -/
def checkChain (blueCandidate : DomainHash) (k : KType) (blockVersion : UInt16) : Nat → DomainHash →
    BlockGHOSTDAGData → Candidate → Except GhostdagError (Option Candidate)
  | 0, _, _, _ => .error .unfinished
  | rounds + 1, chainHash, chainData, candidate => do
    match ← checkBlueCandidateWithChainBlock gm store chainHash chainData
        blueCandidate k blockVersion candidate with
    | .blue candidate => return some candidate
    | .red => return none
    | .undecided candidate =>
      match chainData.selectedParent with
      | none => .error .nilHash
      | some selectedParent =>
        let selectedParentData ← getData store selectedParent
        checkChain blueCandidate k blockVersion rounds selectedParent selectedParentData candidate

/--
`checkBlueCandidate`: what is known of a blue candidate, or nothing for a red
one.  The walk starts at the selected parent, not at the new block.
-/
def checkBlueCandidate (newBlockData : BlockGHOSTDAGData) (blueCandidate : DomainHash) (k : KType)
    (blockVersion : UInt16) : Except GhostdagError (Option Candidate) :=
  if UInt8.ofNat newBlockData.mergeSetBlues.length = k + 1 then .ok none
  else
    match newBlockData.selectedParent with
    | none => .error .nilHash
    | some selectedParent => do
      let selectedParentData ← getData store selectedParent
      checkChain gm store blueCandidate k blockVersion rounds
        selectedParent selectedParentData ⟨∅, 0⟩

/-- Record the sizes of the blues a new blue was added to. -/
def recordSizes (sizes candidateSizes : FiniteMap DomainHash KType) : FiniteMap DomainHash KType :=
  candidateSizes.entries.foldl (fun sizes item => sizes.insert item.1 (item.2 + 1)) sizes

/-- The colouring loop of `GHOSTDAG`. -/
def colourMergeSet (k : KType) (blockVersion : UInt16) :
    List DomainHash → BlockGHOSTDAGData → Except GhostdagError BlockGHOSTDAGData
  | [], newBlockData => .ok newBlockData
  | blueCandidate :: rest, newBlockData => do
    match ← checkBlueCandidate gm rounds store newBlockData blueCandidate k blockVersion with
    | some candidate =>
      colourMergeSet k blockVersion rest
        { newBlockData with
          mergeSetBlues := newBlockData.mergeSetBlues ++ [blueCandidate]
          bluesAnticoneSizes := recordSizes (newBlockData.bluesAnticoneSizes.insert blueCandidate
            candidate.anticoneSize) candidate.bluesAnticoneSizes }
    | none =>
      colourMergeSet k blockVersion rest
        { newBlockData with
          mergeSetReds := newBlockData.mergeSetReds ++ [blueCandidate] }

/-! ## `GHOSTDAG` -/

def kForBlockVersion (blockVersion : UInt16) : Except GhostdagError KType :=
  let index := blockVersion.toNat - 1
  match gm.k[if index ≥ gm.k.length then gm.k.length - 1 else index]? with
  | some k => .ok k
  | none => .error .indexOutOfRange

def dynamicKForBlock (blockHash : DomainHash)
    (blockParents : List DomainHash) : Except GhostdagError KType :=
  let stored : Option KType :=
    if blockHash = virtualBlockHash then none
    else ((store.lookup blockHash).map (·.dynamicK)).filter (· ≠ 0)
  match stored with
  | some k => .ok k
  | none => do
    let rank ← gm.calculateRank blockParents
    return UInt8.ofNat rank

/-- The `K` a block with parents is coloured with. -/
def kForBlock (blockVersion : UInt16) (blockHash : DomainHash)
    (blockParents : List DomainHash) : Except GhostdagError KType :=
  if blockVersion ≥ 6 then dynamicKForBlock gm store blockHash blockParents
  else kForBlockVersion gm blockVersion

/-- The work of the blues; that of the virtual genesis is not counted. -/
def workOfBlues : List DomainHash → Except GhostdagError Nat
  | [] => .ok 0
  | blue :: rest =>
    if blue = virtualGenesisBlockHash then workOfBlues rest
    else do
      let bits ← gm.headerBits blue
      let work ← workOfBlues rest
      return calcWork bits + work

/-- The data of a new block before its merge set is coloured. -/
def uncoloured (k : KType) (selectedParent : DomainHash) : BlockGHOSTDAGData :=
  ⟨0, 0, k, some selectedParent, [selectedParent], [],
    (∅ : FiniteMap DomainHash KType).insert selectedParent 0⟩

/-- `GHOSTDAG` for a block without parents. -/
def ghostdagGenesis : Except GhostdagError BlockGHOSTDAGData := do
  let blockVersion ← gm.blockVersion none
  let k ← kForBlockVersion gm blockVersion
  return ⟨0, 0, k, none, [], [], ∅⟩

/-- `GHOSTDAG` for a block with parents. -/
def ghostdagWithParents (blockHash : DomainHash) (blockParents : List DomainHash) :
    Except GhostdagError BlockGHOSTDAGData := do
  match ← findSelectedParent store blockParents with
  | none => .error .selectedParentNil
  | some selectedParent =>
    let blockVersion ← gm.blockVersion (some selectedParent)
    let k ← kForBlock gm store blockVersion blockHash blockParents
    let mergeSet ← mergeSetWithoutSelectedParent gm rounds store selectedParent blockParents
    let newBlockData ← colourMergeSet gm rounds store k blockVersion
      mergeSet (uncoloured k selectedParent)
    let selectedParentData ← getData store selectedParent
    let work ← workOfBlues gm newBlockData.mergeSetBlues
    return { newBlockData with
      blueScore := selectedParentData.blueScore + UInt64.ofNat newBlockData.mergeSetBlues.length
      blueWork := selectedParentData.blueWork + work }

def ghostdag (blockHash : DomainHash) : Except GhostdagError GHOSTDAGDataStore := do
  let blockParents ← gm.parents blockHash
  let newBlockData ←
    if blockParents = [] then ghostdagGenesis gm
    else ghostdagWithParents gm rounds store blockHash blockParents
  return store.insert blockHash newBlockData

end Manager

end Htnd.Ghostdag.Manager
