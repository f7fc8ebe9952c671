import Htnd.Lib.RangeLoops
import Htnd.Utxo.Entry

/-!
# The block parent builder

The model of `blockparentbuilder.go`, with `parentsmanager.go` and the queries
of `dagtopologymanager.go` that the builder makes.  A header lists the block's
parents level by level; a level that would hold the genesis alone is left out,
and so is every level above it.

The reachability of blocks, the stored headers, the children of the virtual
genesis and the pruning point are what the builder is built with.  A hash map
may be ranged over in any order, another one each time; the orders are a
parameter.  Failures of the database are left out, as are the pools the source
takes its slices and maps from.
-/

namespace Htnd.BlockParents.Builder

open Lib.RangeLoops Utxo.Entry

/-! ## Headers -/

abbrev BlockLevelParents := List DomainHash

/-- The parents of a header, and the length of its proof of work's value. -/
structure BlockHeader where
  parents : List BlockLevelParents
  powBitLen : Nat
deriving DecidableEq

def BlockHeader.directParents (header : BlockHeader) : BlockLevelParents :=
  match header.parents with
  | [] => []
  | direct :: _ => direct

def BlockHeader.blockLevel (header : BlockHeader) (maxBlockLevel : Nat) : Nat :=
  if header.directParents.length = 0 then maxBlockLevel
  else maxBlockLevel - header.powBitLen

/-! ## The builder -/

inductive BuilderError where
  | headerNotFound (blockHash : DomainHash)
  | reachabilityFailed
  | noParentInFuture (message : String)
deriving DecidableEq

structure ParentsManager where
  genesisHash : DomainHash
  maxBlockLevel : Nat

/--
`blockParentBuilder`, with what it reads from other managers and stores.  It has
the same genesis and the same maximal level as its parents manager.
-/
structure BlockParentBuilder extends ParentsManager where
  blockHeaderStore : FiniteMap DomainHash BlockHeader
  isAncestorOf : DomainHash → DomainHash → Except BuilderError Bool
  hasReachabilityData : DomainHash → Bool
  virtualGenesisChildren : List DomainHash
  pruningPoint : DomainHash

structure CandidateReferences where
  single : Option DomainHash
  multi : List DomainHash

structure CandidateEntry where
  hash : DomainHash
  references : CandidateReferences

abbrev CandidateMap := FiniteMap DomainHash CandidateEntry

/-- A candidate, as a range loop meets it. -/
abbrev Candidate := (_ : DomainHash) × CandidateEntry

/-- The order in which each range loop over a map meets its entries. -/
structure RangeOrder where
  order : Nat → List Candidate → List Candidate
  perm : ∀ time items, (order time items).Perm items

/-! ## The parents manager -/

def parentsAtLevel (pm : ParentsManager) (blockHeader : BlockHeader)
    (level : Nat) : BlockLevelParents :=
  let parentsAtLevel := blockHeader.parents.getD level []
  if parentsAtLevel.length = 0 ∧ blockHeader.directParents.length > 0 then
    [pm.genesisHash]
  else parentsAtLevel

/-- `Parents`, with the level of each list. -/
def parents (pm : ParentsManager) (blockHeader : BlockHeader) : List (Nat × BlockLevelParents) :=
  (List.range (pm.maxBlockLevel + 1)).map fun level => (level, parentsAtLevel pm blockHeader level)

/-! ## Topology -/

variable (bpb : BlockParentBuilder)

def isAncestorOfAny (blockHash : DomainHash) : List DomainHash → Except BuilderError Bool
  | [] => pure false
  | potentialDescendant :: rest => do
    if ← bpb.isAncestorOf blockHash potentialDescendant then pure true
    else isAncestorOfAny blockHash rest

def isAnyAncestorOf (blockHash : DomainHash) : List DomainHash → Except BuilderError Bool
  | [] => pure false
  | potentialAncestor :: rest => do
    if ← bpb.isAncestorOf potentialAncestor blockHash then pure true
    else isAnyAncestorOf blockHash rest

def isInFutureOfReferences (references : CandidateReferences)
    (blockHash : DomainHash) : Except BuilderError Bool :=
  match references.single with
  | some single => bpb.isAncestorOf single blockHash
  | none => isAnyAncestorOf bpb blockHash references.multi

def isAncestorOfReferences (blockHash : DomainHash)
    (references : CandidateReferences) : Except BuilderError Bool :=
  match references.single with
  | some single => bpb.isAncestorOf blockHash single
  | none => isAncestorOfAny bpb blockHash references.multi

/-! ## The order of the direct parents -/

/-- The position of the first direct parent in the pruning point's future. -/
def firstParentInFuture : List DomainHash → Except BuilderError (Option Nat)
  | [] => pure none
  | directParentHash :: rest => do
    if ← bpb.isAncestorOf bpb.pruningPoint directParentHash then
      pure (some 0)
    else return (← firstParentInFuture rest).map (· + 1)

/-- The list with its first item and the one at the index exchanged. -/
def swapFirst (items : List DomainHash) (index : Nat) : List DomainHash :=
  match items[0]?, items[index]? with
  | some first, some other => (items.set 0 other).set index first
  | _, _ => items

/-- `BlockHeader` of the header store. -/
def blockHeader (blockHash : DomainHash) : Except BuilderError BlockHeader :=
  match bpb.blockHeaderStore.lookup blockHash with
  | some header => .ok header
  | none => .error (.headerNotFound blockHash)

def withHeaders : List DomainHash → Except BuilderError (List (DomainHash × BlockHeader))
  | [] => pure []
  | blockHash :: rest => do
    let header ← blockHeader bpb blockHash
    return (blockHash, header) :: (← withHeaders rest)

/-! ## Candidates -/

/-- The candidates of each level, and the number of range loops so far. -/
structure Building where
  candidatesByLevel : Nat → Option CandidateMap
  ranges : Nat

/-- A candidate that is its own reference. -/
def ownEntry (blockHash : DomainHash) : CandidateEntry := ⟨blockHash, ⟨some blockHash, []⟩⟩

/-- Add a direct parent to one of the levels it occupies. -/
def addAtLevel (directParentHash : DomainHash) (byLevel : Nat → Option CandidateMap) (level : Nat) :
    Nat → Option CandidateMap :=
  Function.update byLevel level (some (((byLevel level).getD ∅).insert directParentHash
    (ownEntry directParentHash)))

/-- Add a direct parent to all levels it occupies. -/
def addDirectParent (byLevel : Nat → Option CandidateMap)
    (directParent : DomainHash × BlockHeader) : Nat → Option CandidateMap :=
  (List.range (directParent.2.blockLevel bpb.maxBlockLevel + 1)).foldl
    (addAtLevel directParent.1) byLevel

/-- The hash marks virtual or the virtual genesis. -/
def isVirtualMarker (blockHash : DomainHash) : Bool :=
  blockHash = virtualBlockHash ∨ blockHash = virtualGenesisBlockHash

/-- What the loop over the candidates finds out about a parent. -/
structure Comparison where
  toRemove : List DomainHash
  isAncestorOfAnyCandidate : Bool

/-- Compare a parent with one candidate. -/
def compareCandidate (parent : DomainHash) (found : Comparison)
    (candidate : Candidate) : Except BuilderError Comparison := do
  if ← isInFutureOfReferences bpb candidate.2.references parent then
    return { found with toRemove := found.toRemove ++ [candidate.1] }
  if found.isAncestorOfAnyCandidate then return found
  if ← isAncestorOfReferences bpb parent candidate.2.references then
    return { found with isAncestorOfAnyCandidate := true }
  return found

/-- The references of a candidate on a level that had none. -/
def firstReferences (children : List (DomainHash × BlockHeader)) (blockLevel : Nat)
    (parent : DomainHash) (isInFutureOfVirtualGenesisChildren : Bool) : CandidateReferences :=
  if isInFutureOfVirtualGenesisChildren then ⟨some parent, []⟩
  else
    let isListed := fun child : DomainHash × BlockHeader =>
      (parentsAtLevel bpb.toParentsManager child.2 blockLevel).contains parent
    ⟨none, (children.filter isListed).map Prod.fst⟩

/-- Whether the parent is not pruned and after a virtual genesis child. -/
def isInFutureOfChildren (children : List (DomainHash × BlockHeader))
    (parent : DomainHash) : Except BuilderError Bool :=
  if bpb.hasReachabilityData parent then
    isAnyAncestorOf bpb parent (children.map Prod.fst)
  else pure false

/-- Take a parent from a direct parent's header as a candidate of a level. -/
def considerParent (order : RangeOrder)
    (children : List (DomainHash × BlockHeader)) (isEmptyLevel : Bool)
    (blockLevel : Nat) (state : CandidateMap × Nat) (parent : DomainHash) :
    Except BuilderError (CandidateMap × Nat) := do
  let (candidates, ranges) := state
  if isVirtualMarker parent then return state
  let isInFuture ← isInFutureOfChildren bpb children parent
  if isEmptyLevel then
    return (candidates.insert parent
      ⟨parent, firstReferences bpb children blockLevel parent isInFuture⟩, ranges)
  if !isInFuture then return state
  let found ← (order.order ranges candidates.entries).foldlM
    (compareCandidate bpb parent) ⟨[], false⟩
  let kept := found.toRemove.foldl (fun kept hash => kept.erase hash) candidates
  if !found.isAncestorOfAnyCandidate ∨ found.toRemove.length > 0 then
    return (kept.insert parent (ownEntry parent), ranges + 1)
  return (kept, ranges + 1)

/-- Take the parents a header lists on one level. -/
def considerLevel (order : RangeOrder)
    (children : List (DomainHash × BlockHeader)) (building : Building)
    (level : Nat × BlockLevelParents) : Except BuilderError Building := do
  let candidates := building.candidatesByLevel level.1
  let (candidates, ranges) ← level.2.foldlM
    (considerParent bpb order children candidates.isNone level.1)
    (candidates.getD ∅, building.ranges)
  return ⟨Function.update building.candidatesByLevel level.1 (some candidates), ranges⟩

/-- Take the parents a header lists on all levels. -/
def considerHeader (order : RangeOrder) (children : List (DomainHash × BlockHeader))
    (building : Building) (header : BlockHeader) : Except BuilderError Building :=
  (parents bpb.toParentsManager header).foldlM (considerLevel bpb order children) building

/-! ## Building the parents -/

/-- The candidates of a level, as a range loop lists them. -/
def levelBlocks (order : RangeOrder) (building : Building) (level : Nat)
    (candidates : CandidateMap) : BlockLevelParents :=
  (order.order (building.ranges + level) candidates.entries).map fun candidate => candidate.2.hash

/-- The last loop of `BuildParents`, over the levels that are left. -/
def collectLevels (order : RangeOrder) (building : Building) : List Nat → List BlockLevelParents
  | [] => []
  | level :: rest =>
    match building.candidatesByLevel level with
    | none => []
    | some candidates =>
      if level > 0 ∧ bpb.genesisHash ∈ candidates ∧ candidates.entries.length = 1 then []
      else
        let blocks := levelBlocks order building level candidates
        if blocks.length > 0 then
          blocks :: collectLevels order building rest
        else collectLevels order building rest

def buildParents (order : RangeOrder) (directParentHashes : List DomainHash) :
    Except BuilderError (List BlockLevelParents) := do
  match ← firstParentInFuture bpb directParentHashes with
  | none =>
    throw (.noParentInFuture ("BuildParents should get at least one parent in the future of " ++
        "the pruning point"))
  | some index => do
    let directParents ← withHeaders bpb (swapFirst directParentHashes index)
    let candidatesByLevel := directParents.foldl (addDirectParent bpb) fun _ => none
    let children ← withHeaders bpb (bpb.virtualGenesisChildren.filter
      fun child => !isVirtualMarker child)
    let building ← (directParents.map Prod.snd).foldlM
      (considerHeader bpb order children) ⟨candidatesByLevel, 0⟩
    return collectLevels bpb order building (List.range (bpb.maxBlockLevel + 1))

end Htnd.BlockParents.Builder
