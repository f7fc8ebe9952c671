import Htnd.Utxo.Serialization
import Htnd.Utxo.TransactionView

/-!
# Applying acceptance data to a diff and to a multiset

The model of `acceptance.go`.  A block's acceptance data is replayed twice:
onto the UTXO diff, and onto the multiset whose hash the block header commits
to.  The multiset is a commutative group over byte strings, here the integer
multiplicity of every byte string.  Of the acceptance data, the block hash,
the fee and the cached input entries are read by neither replay and are left
out, as are the logging statements.
-/

namespace Htnd.Utxo.Acceptance

open List
open Entry MutableDiff UtxoSet Serialization TransactionView

/-! ## Acceptance data -/

structure TransactionAcceptanceData where
  transaction : DomainTransaction
  isAccepted : Bool

structure BlockAcceptanceData where
  transactionAcceptanceData : List TransactionAcceptanceData

abbrev AcceptanceData := List BlockAcceptanceData

/-- `AcceptedUTXOBlockDAAScore`: the score of the merging block. -/
def acceptedUTXOBlockDAAScore (mergingBlockDAAScore : UInt64) : UInt64 := mergingBlockDAAScore

/-- `IsAcceptedCoinbase`; the position is only reported, never used. -/
def isAcceptedCoinbase (transaction : DomainTransaction) (_positionInBlock : Nat) : Bool :=
  transaction.isCoinBase

/-- The accepted transactions, in the order of the replay. -/
def acceptedTransactions (acceptanceData : AcceptanceData) : List DomainTransaction :=
  acceptanceData.flatMap fun block => (block.transactionAcceptanceData.filter (·.isAccepted)).map
    (·.transaction)

/-- A step of a replay: the new state and the error, if any. -/
abbrev ReplayStep (State : Type) := State → DomainTransaction → Bool → State × Option DiffError

/-- The inner loop of `forEachAcceptedTransaction`, from a position on. -/
def forEachAcceptedInBlock {State : Type} (apply : ReplayStep State) :
    Nat → List TransactionAcceptanceData → State → State × Option DiffError
  | _, [], state => (state, none)
  | position, data :: rest, state =>
    if !data.isAccepted then
      forEachAcceptedInBlock apply (position + 1) rest state
    else
      match apply state data.transaction (isAcceptedCoinbase data.transaction position) with
      | (state, some err) => (state, some err)
      | (state, none) => forEachAcceptedInBlock apply (position + 1) rest state

def forEachAcceptedTransaction {State : Type} (apply : ReplayStep State) :
    AcceptanceData → State → State × Option DiffError
  | [], state => (state, none)
  | block :: rest, state =>
    match forEachAcceptedInBlock apply 0 block.transactionAcceptanceData state with
    | (state, some err) => (state, some err)
    | (state, none) => forEachAcceptedTransaction apply rest state

def applyAcceptanceDataToDiff (diff : MutableUTXODiff) (acceptanceData : AcceptanceData)
    (mergingBlockDAAScore : UInt64) : MutableUTXODiff × Option DiffError :=
  forEachAcceptedTransaction (fun diff transaction _ => diff.addOutputsSpendingResolvedInputs
    transaction (acceptedUTXOBlockDAAScore mergingBlockDAAScore)) acceptanceData diff

/-! ## The multiset -/

/-- A multiset: the multiplicity of every byte string. -/
abbrev ByteMultiset := List UInt8 → Int

namespace ByteMultiset

def add (multiset : ByteMultiset) (data : List UInt8) : ByteMultiset :=
  fun bytes => if bytes = data then multiset bytes + 1 else multiset bytes

def remove (multiset : ByteMultiset) (data : List UInt8) : ByteMultiset :=
  fun bytes => if bytes = data then multiset bytes - 1 else multiset bytes

end ByteMultiset

/-- What the duplicate check of an output decides. -/
structure SkipDecision where
  skip : Bool
  removePrior : Option UTXOEntry

/--
The state of a multiset replay: the multiset and the outpoints the replay has
created so far.
-/
structure MultisetReplay where
  multiset : ByteMultiset
  addedHere : List DomainOutpoint

/-- A duplicate check; it may note the outpoint as created. -/
abbrev SkipDuplicate :=
  List DomainOutpoint → DomainOutpoint → UTXOEntry →
    Except DiffError (SkipDecision × List DomainOutpoint)

/-- `addUTXO`, or `removeUTXO` when the replay is reversed. -/
def addUTXO (reverse : Bool) (multiset : ByteMultiset) (entry : UTXOEntry)
    (outpoint : DomainOutpoint) : ByteMultiset :=
  if reverse then multiset.remove (serializeUTXO entry outpoint)
  else multiset.add (serializeUTXO entry outpoint)

/-- `removeUTXO`, or `addUTXO` when the replay is reversed. -/
def removeUTXO (reverse : Bool) (multiset : ByteMultiset)
    (entry : UTXOEntry) (outpoint : DomainOutpoint) : ByteMultiset :=
  addUTXO (!reverse) multiset entry outpoint

/-- The input loop of `applyTransactionToMultiset`. -/
def removeInputUTXOs (reverse : Bool) (multiset : ByteMultiset)
    (inputs : List DomainTransactionInput) : ByteMultiset :=
  inputs.foldl (fun multiset input =>
      match input.utxoEntry with
      | none => multiset
      | some entry => removeUTXO reverse multiset entry input.previousOutpoint)
    multiset

/-- One output that passed the duplicate check. -/
def writeOutput (reverse : Bool) (multiset : ByteMultiset)
    (outpoint : DomainOutpoint) (entry : UTXOEntry) (decision : SkipDecision) : ByteMultiset :=
  let multiset :=
    match decision.removePrior with
    | some prior => removeUTXO reverse multiset prior outpoint
    | none => multiset
  if decision.skip then multiset
  else addUTXO reverse multiset entry outpoint

/-- The output loop of `applyTransactionToMultiset`, from a position on. -/
def addOutputUTXOs (skipDuplicate : Option SkipDuplicate) (reverse : Bool)
    (transactionID : DomainTransactionID) (isCoinbase : Bool) (mergingBlockDAAScore : UInt64) :
    Nat → List DomainTransactionOutput → MultisetReplay → MultisetReplay × Option DiffError
  | _, [], state => (state, none)
  | index, output :: rest, state =>
    if 2 ^ 32 - 1 < index then
      (state, some (.outputIndexTooLarge index))
    else
      let outpoint : DomainOutpoint := ⟨transactionID, UInt32.ofNat index⟩
      let entry := MutableUTXODiff.newUTXOEntry output isCoinbase
        (acceptedUTXOBlockDAAScore mergingBlockDAAScore)
      match skipDuplicate with
      | none =>
        addOutputUTXOs skipDuplicate reverse transactionID isCoinbase
          mergingBlockDAAScore (index + 1) rest
          { state with
            multiset := addUTXO reverse state.multiset entry outpoint }
      | some check =>
        match check state.addedHere outpoint entry with
        | .error err => (state, some err)
        | .ok (decision, addedHere) =>
          addOutputUTXOs skipDuplicate reverse transactionID isCoinbase mergingBlockDAAScore
            (index + 1) rest ⟨writeOutput reverse state.multiset outpoint entry decision, addedHere⟩

def applyTransactionToMultiset (skipDuplicate : Option SkipDuplicate) (reverse : Bool)
    (mergingBlockDAAScore : UInt64) (state : MultisetReplay) (transaction : DomainTransaction)
    (isCoinbase : Bool) : MultisetReplay × Option DiffError :=
  addOutputUTXOs skipDuplicate reverse transaction.id isCoinbase
    mergingBlockDAAScore 0 transaction.outputs
    { state with
      multiset := removeInputUTXOs reverse state.multiset transaction.inputs }

/-- The lookup of virtual that a caller may provide. -/
abbrev BaseUTXO := DomainOutpoint → Except DiffError (Option UTXOEntry)

/-- `resolveExisting`: the past diff, removals first, then the base. -/
def resolveExisting (selectedParentPastUTXO : Option UTXODiff) (baseUTXO : Option BaseUTXO)
    (outpoint : DomainOutpoint) : Except DiffError (Option UTXOEntry) :=
  let fromBase : Except DiffError (Option UTXOEntry) :=
    match baseUTXO with
    | none => .ok none
    | some lookup => lookup outpoint
  match selectedParentPastUTXO with
  | none => fromBase
  | some past =>
    if past.toRemove.contains outpoint then .ok none
    else
      match past.toAdd.get outpoint with
      | some entry => .ok (some entry)
      | none => fromBase

/-- The duplicate check of `ApplyAcceptanceDataToMultiset`. -/
def skipHeldOutput (selectedParentPastUTXO : Option UTXODiff)
    (baseUTXO : Option BaseUTXO) : SkipDuplicate :=
  fun addedHere outpoint newEntry =>
    if addedHere.contains outpoint then .ok (⟨true, none⟩, addedHere)
    else
      match resolveExisting selectedParentPastUTXO baseUTXO outpoint with
      | .error err => .error err
      | .ok none => .ok (⟨false, none⟩, outpoint :: addedHere)
      | .ok (some existing) =>
        if !sameCoin (some existing) (some newEntry) then
          .ok (⟨false, none⟩, outpoint :: addedHere)
        else if existing.blockDAAScore == newEntry.blockDAAScore then
          .ok (⟨true, none⟩, outpoint :: addedHere)
        else
          .ok (⟨false, some existing⟩, outpoint :: addedHere)

def applyAcceptanceDataToMultiset (multiset : ByteMultiset) (acceptanceData : AcceptanceData)
    (mergingBlockDAAScore : UInt64) (selectedParentPastUTXO : Option UTXODiff)
    (baseUTXO : Option BaseUTXO) : ByteMultiset × Option DiffError :=
  let outcome := forEachAcceptedTransaction (applyTransactionToMultiset
      (some (skipHeldOutput selectedParentPastUTXO baseUTXO)) false mergingBlockDAAScore)
    acceptanceData ⟨multiset, []⟩
  (outcome.1.multiset, outcome.2)

/-- The two nested reversed loops of `RemoveAcceptanceDataFromMultiset`. -/
def removeAcceptanceDataFromMultiset (multiset : ByteMultiset) (acceptanceData : AcceptanceData)
    (mergingBlockDAAScore : UInt64) : ByteMultiset × Option DiffError :=
  let outcome := forEachAcceptedTransaction (applyTransactionToMultiset none true
    mergingBlockDAAScore) (acceptanceData.reverse.map fun block =>
    ⟨block.transactionAcceptanceData.reverse⟩) ⟨multiset, []⟩
  (outcome.1.multiset, outcome.2)

/-! ## Multiplicities -/

/-- One if the slot holds the entry, else zero. -/
def indicator (slot : Option UTXOEntry) (entry : UTXOEntry) : Int :=
  if slot = some entry then 1 else 0

/--
The entry the duplicate check takes the set to hold where an output creates
`entry`: the created entry itself if this replay created the outpoint before,
else the starting entry if it is the same coin.
-/
def believedEntry (past : UTXODiff) (base : UTXOSet)
    (createdHere : Bool) (outpoint : DomainOutpoint) (entry : UTXOEntry) : Option UTXOEntry :=
  if createdHere then some entry
  else (past.removalsFirstView base outpoint).filter fun existing =>
    sameCoin (some existing) (some entry)

/-- The duplicate check over a past diff and a base set. -/
def checkHeld (past : UTXODiff) (base : UTXOSet) : SkipDuplicate :=
  skipHeldOutput (some past) (some fun outpoint => .ok (base outpoint))

theorem resolveExisting_eq_removalsFirstView (past : UTXODiff) (base : UTXOSet)
    (point : DomainOutpoint) : resolveExisting (some past) (some fun point => .ok (base point))
    point = .ok (past.removalsFirstView base point) := by
  unfold resolveExisting UTXODiff.removalsFirstView
  dsimp only
  split_ifs
  · rfl
  · cases past.toAdd.get point with
    | none => rfl
    | some entry => rfl

/-- The change of multiplicities a decision makes at its outpoint. -/
def decisionDelta (decision : SkipDecision) (created entry : UTXOEntry) : Int :=
  (if decision.skip then 0 else indicator (some created) entry) -
    indicator decision.removePrior entry

/--
The check never fails, notes the outpoint, and exchanges the believed entry
for the created one.
-/
theorem checkHeld_decides (past : UTXODiff) (base : UTXOSet) (addedHere : List DomainOutpoint)
    (point : DomainOutpoint) (created : UTXOEntry) : ∃ decision next,
    checkHeld past base addedHere point created = .ok (decision, next) ∧
    (∀ other, other ∈ next ↔ other = point ∨ other ∈ addedHere) ∧ ∀ entry,
    decisionDelta decision created entry = indicator (some created) entry - indicator
    (believedEntry past base (addedHere.contains point) point created) entry := by
  unfold checkHeld skipHeldOutput believedEntry
  by_cases already : point ∈ addedHere
  · refine ⟨⟨true, none⟩, addedHere, by simp [already], ?_, ?_⟩
    · intro other
      constructor
      · exact .inr
      · rintro (rfl | mem)
        · exact already
        · exact mem
    · simp [decisionDelta, already, indicator]
  · simp only [contains_eq_mem, already, resolveExisting_eq_removalsFirstView]
    have noted : ∀ other, other ∈ point :: addedHere ↔
        other = point ∨ other ∈ addedHere := fun other => mem_cons
    cases starting : past.removalsFirstView base point with
    | none =>
      refine ⟨⟨false, none⟩, _, rfl, noted, ?_⟩
      simp [decisionDelta]
    | some existing =>
      cases coin : sameCoin (some existing) (some created) with
      | false =>
        refine ⟨⟨false, none⟩, _, by simp [coin], noted, ?_⟩
        simp [decisionDelta, coin, Option.filter]
      | true =>
        by_cases score : existing.blockDAAScore = created.blockDAAScore
        · have same : existing = created := eq_of_sameCoin coin score
          subst same
          refine ⟨⟨true, none⟩, _, by simp [coin], noted, ?_⟩
          simp [decisionDelta, indicator, Option.filter]
        · refine ⟨⟨false, some existing⟩, _, by simp [coin, score], noted, ?_⟩
          simp [decisionDelta, coin, Option.filter]

/-- Writing at one outpoint changes one multiplicity, by plus or minus one. -/
theorem addUTXO_apply (reverse : Bool) (bag : ByteMultiset) (entry other : UTXOEntry)
    (point otherOutpoint : DomainOutpoint) : addUTXO reverse bag entry point
    (serializeUTXO other otherOutpoint) = bag (serializeUTXO other otherOutpoint) +
    (if reverse then -1 else 1) *
          if otherOutpoint = point then indicator (some entry) other
          else 0 := by
  have written : (if otherOutpoint = point then
      indicator (some entry) other else 0) =
      if serializeUTXO other otherOutpoint = serializeUTXO entry point
        then 1 else 0 := by
    unfold indicator
    by_cases sameBytes : serializeUTXO other otherOutpoint = serializeUTXO entry point
    · rcases utxo_injective sameBytes with ⟨rfl, rfl⟩
      simp
    rw [if_neg sameBytes]
    split_ifs with sameOutpoint sameEntry
    · cases sameEntry
      exact absurd (congrArg (serializeUTXO entry) sameOutpoint) sameBytes
    · rfl
    · rfl
  rw [written]
  cases reverse
  · by_cases sameBytes : serializeUTXO other otherOutpoint = serializeUTXO entry point <;>
      simp [addUTXO, ByteMultiset.add, sameBytes]
  · by_cases sameBytes : serializeUTXO other otherOutpoint = serializeUTXO entry point <;>
      simp [addUTXO, ByteMultiset.remove, sameBytes, Int.sub_eq_add_neg]

theorem writeOutput_apply (bag : ByteMultiset) (point otherOutpoint : DomainOutpoint)
    (created other : UTXOEntry) (decision : SkipDecision) :
    writeOutput false bag point created decision (serializeUTXO other otherOutpoint) =
    bag (serializeUTXO other otherOutpoint) +
        if otherOutpoint = point then decisionDelta decision created other
        else 0 := by
  rcases decision with ⟨skip, _ | _⟩ <;> cases skip <;> simp only [writeOutput, decisionDelta,
    removeUTXO, addUTXO_apply, indicator, Bool.not_false, if_true, if_false, reduceCtorEq] <;>
    split_ifs <;> omega

/-- Byte strings that represent no pair are never touched. -/
def Foreign (bytes : List UInt8) : Prop := ∀ entry outpoint, bytes ≠ serializeUTXO entry outpoint

variable {bytes : List UInt8}

theorem addUTXO_foreign (foreign : Foreign bytes) (reverse : Bool)
    (bag : ByteMultiset) (entry : UTXOEntry) (point : DomainOutpoint) :
    addUTXO reverse bag entry point bytes = bag bytes := by
  cases reverse <;> simp [addUTXO, ByteMultiset.add, ByteMultiset.remove, foreign entry point]

/-! ## One transaction -/

theorem removeInputUTXOs_cons (reverse : Bool) (bag : ByteMultiset) (input : DomainTransactionInput)
    (rest : List DomainTransactionInput) : removeInputUTXOs reverse bag (input :: rest) =
      match input.utxoEntry with
      | none => removeInputUTXOs reverse bag rest
      | some entry =>
        removeInputUTXOs reverse (removeUTXO reverse bag entry input.previousOutpoint)
          rest := by
  rw [removeInputUTXOs, foldl_cons]
  cases input.utxoEntry <;> rfl

theorem removeInputUTXOs_foreign (foreign : Foreign bytes) (reverse : Bool)
    (bag : ByteMultiset) (inputs : List DomainTransactionInput) :
    removeInputUTXOs reverse bag inputs bytes = bag bytes := by
  induction inputs generalizing bag with
  | nil => rfl
  | cons input rest ih =>
    rw [removeInputUTXOs_cons]
    cases input.utxoEntry with
    | none => exact ih bag
    | some entry =>
      exact (ih _).trans (addUTXO_foreign foreign (!reverse) bag entry input.previousOutpoint)

/-- Distinct resolved inputs each leave the multiset once. -/
theorem removeInputUTXOs_apply (bag : ByteMultiset) (inputs : List DomainTransactionInput)
    (nodup : ((resolvedInputs inputs).map Prod.fst).Nodup) (entry : UTXOEntry)
    (point : DomainOutpoint) : removeInputUTXOs false bag inputs (serializeUTXO entry point) =
    bag (serializeUTXO entry point) -
        if (point, entry) ∈ resolvedInputs inputs then 1 else 0 := by
  induction inputs generalizing bag with
  | nil => simp [removeInputUTXOs, resolvedInputs]
  | cons input rest ih =>
    rw [removeInputUTXOs_cons, resolvedInputs_cons]
    rw [resolvedInputs_cons] at nodup
    cases carried : input.utxoEntry with
    | none =>
      rw [carried] at nodup
      exact ih bag nodup
    | some spent =>
      rw [carried] at nodup
      dsimp only at nodup ⊢
      rw [map_cons, nodup_cons] at nodup
      rw [ih _ nodup.2, removeUTXO, addUTXO_apply]
      simp only [indicator]
      by_cases sameOutpoint : point = input.previousOutpoint
      · have notInRest : ∀ other, (input.previousOutpoint, other) ∉ resolvedInputs rest :=
          fun other mem => nodup.1 (mem_map.mpr ⟨_, mem, rfl⟩)
        by_cases sameEntry : entry = spent
        · simp [sameOutpoint, sameEntry, notInRest]
          omega
        · simp [sameEntry, Ne.symm sameEntry]
      · simp [sameOutpoint]

/-- The change of a multiplicity where an output creates an entry, if any. -/
def outputDelta (past : UTXODiff) (base : UTXOSet) (createdHere : Bool) (outpoint : DomainOutpoint)
    (entry : UTXOEntry) : Option UTXOEntry → Int
  | none => 0
  | some created => indicator (some created) entry -
      indicator (believedEntry past base createdHere outpoint created) entry

/-- What the outputs from a position on do, given the check against `past`. -/
theorem addOutputUTXOs_apply (past : UTXODiff) (base : UTXOSet)
    (transactionID : DomainTransactionID) (coinbase : Bool) (score : UInt64) (index : Nat)
    (outputs : List DomainTransactionOutput) (state : MultisetReplay)
    (fits : index + outputs.length ≤ 2 ^ 32) : ∃ next : MultisetReplay,
    addOutputUTXOs (some (checkHeld past base)) false transactionID coinbase score index outputs
    state = (next, none) ∧ (∀ point, point ∈ next.addedHere ↔ point ∈ state.addedHere ∨
    (createdFrom transactionID coinbase score index outputs point).isSome) ∧
    (∀ bytes, Foreign bytes →
        next.multiset bytes = state.multiset bytes) ∧ ∀ entry point,
        next.multiset (serializeUTXO entry point) = state.multiset (serializeUTXO entry point) +
          outputDelta past base (state.addedHere.contains point) point entry
          (createdFrom transactionID coinbase score index outputs point) := by
  induction outputs generalizing index state with
  | nil =>
    refine ⟨state, rfl, ?_, fun _ _ => rfl, ?_⟩
    · simp [createdFrom]
    · simp [createdFrom, outputDelta]
  | cons output rest ih =>
    have small : index < 2 ^ 32 := by
      simp only [length_cons] at fits
      omega
    rcases checkHeld_decides past base state.addedHere ⟨transactionID, UInt32.ofNat index⟩
      (MutableUTXODiff.newUTXOEntry output coinbase score) with
      ⟨decision, noted, decided, notedIff, delta⟩
    rcases ih (index + 1) ⟨writeOutput false state.multiset ⟨transactionID, UInt32.ofNat index⟩
      (MutableUTXODiff.newUTXOEntry output coinbase score) decision, noted⟩
      (by simp only [length_cons] at fits; omega) with ⟨next, run, added, foreign, counts⟩
    refine ⟨next, ?_, ?_, ?_, ?_⟩
    · rw [addOutputUTXOs, if_neg (by omega)]
      dsimp only [acceptedUTXOBlockDAAScore]
      rw [decided]
      exact run
    · intro point
      rw [added, createdFrom_cons small, notedIff]
      split_ifs with isHead
      · simp [isHead]
      · simp [isHead]
    · intro bytes isForeign
      rw [foreign bytes isForeign]
      rcases decision with ⟨skip, _ | _⟩ <;> cases skip <;>
        simp [writeOutput, removeUTXO, addUTXO_foreign isForeign]
    · intro entry point
      rw [counts, createdFrom_cons small]
      dsimp only
      rw [writeOutput_apply]
      by_cases isHead : point = ⟨transactionID, UInt32.ofNat index⟩
      · rw [delta, isHead, createdFrom_succ_self small]
        simp [outputDelta]
      rw [if_neg isHead, if_neg isHead]
      have sameNotes : noted.contains point = state.addedHere.contains point := by
        simp [notedIff, isHead]
      rw [sameNotes, Int.add_zero]

end Htnd.Utxo.Acceptance
