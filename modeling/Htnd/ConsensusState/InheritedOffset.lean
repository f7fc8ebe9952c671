import Htnd.Lib.Fallible
import Htnd.Utxo.Acceptance

/-!
# The check for an inherited offset

The model of `inherited_offset.go`.  A block whose UTXO commitment does not
match is acquitted if the coins its accepted transactions create are in its past
view as the acceptance data describes them.  The check compares the contents of
the coins it finds.  A coin that is missing is excused by the removals of the
diff and by the inputs of all accepted transactions, in whatever order they
come, and coins that were spent are not looked for at all.  An acquitted block
agrees with its acceptance data exactly if neither hides anything.
-/

namespace Htnd.ConsensusState.InheritedOffset

open Lib.Fallible Utxo.Entry Utxo.MutableDiff Utxo.UtxoSet List
open Utxo.TransactionView Utxo.Acceptance

/-- Why a block is not acquitted. -/
inductive Conviction where
  | absent (transactionID : DomainTransactionID) (outputIndex : Nat)
  | differentContents (transactionID : DomainTransactionID) (outputIndex : Nat)
deriving DecidableEq

/-- `spentInThisPast`: all inputs of the accepted transactions. -/
def spentInThisPast (acceptanceData : AcceptanceData) : List DomainOutpoint :=
  (acceptedTransactions acceptanceData).flatMap fun transaction =>
    transaction.inputs.map (·.previousOutpoint)

section Check

variable (acceptanceData : AcceptanceData) (pastUTXODiff : UTXODiff)
  (daaScore : UInt64) (lookupVirtual : Option UTXOSet)

def inPastView (outpoint : DomainOutpoint) : Option UTXOEntry :=
  match pastUTXODiff.toAdd.get outpoint with
  | some entry => some entry
  | none =>
    if pastUTXODiff.toRemove.contains outpoint then none
    else lookupVirtual.bind (· outpoint)

/-- The check of one output of an accepted transaction. -/
def checkOutput (transaction : DomainTransaction) (positionInBlock : Nat)
    (output : DomainTransactionOutput) (outputIndex : Nat) : Except Conviction Unit :=
  let outpoint : DomainOutpoint := ⟨transaction.id, UInt32.ofNat outputIndex⟩
  match inPastView pastUTXODiff lookupVirtual outpoint with
  | none =>
    if pastUTXODiff.toRemove.contains outpoint then .ok ()
    else if outpoint ∈ spentInThisPast acceptanceData then .ok ()
    else .error (.absent transaction.id outputIndex)
  | some entry =>
    if entry.amount ≠ output.value ∨ entry.isCoinbase ≠ isAcceptedCoinbase transaction
        positionInBlock ∨ entry.blockDAAScore ≠ acceptedUTXOBlockDAAScore daaScore ∨
        entry.scriptPublicKey ≠ output.scriptPublicKey then
      .error (.differentContents transaction.id outputIndex)
    else .ok ()

/-- The check of one transaction of a merged block. -/
def checkTransaction (data : TransactionAcceptanceData)
    (positionInBlock : Nat) : Except Conviction Unit :=
  if !data.isAccepted then .ok ()
  else
    data.transaction.outputs.zipIdx.forM fun item => checkOutput acceptanceData pastUTXODiff
      daaScore lookupVirtual data.transaction positionInBlock item.1 item.2

end Check

/-- `blockOnlyCarriesTheInheritedOffset`; without a diff nothing is checked. -/
def blockOnlyCarriesTheInheritedOffset (acceptanceData : AcceptanceData)
    (pastUTXODiff : Option UTXODiff) (daaScore : UInt64)
    (lookupVirtual : Option UTXOSet) : Except Conviction Unit :=
  match pastUTXODiff with
  | none => .ok ()
  | some pastUTXODiff =>
    acceptanceData.forM fun block => block.transactionAcceptanceData.zipIdx.forM fun item =>
      checkTransaction acceptanceData pastUTXODiff daaScore lookupVirtual item.1 item.2

/-! ## What an acquittal says -/

variable {acceptanceData : AcceptanceData} {diff : UTXODiff} {daaScore : UInt64} {virtual : UTXOSet}

theorem inPastView_eq_view (point : DomainOutpoint) :
    inPastView diff (some virtual) point = diff.view virtual point := by
  rw [inPastView, UTXODiff.view, UTXODiff.cell, UTXOCollection.contains]
  cases diff.toAdd.get point with
  | some entry => rfl
  | none => cases diff.toRemove.get point <;> rfl

/--
A created coin that is in the view has the contents it was created with; one
that is not is among the removals or the inputs.
-/
theorem created_of_acquitted (acquitted : blockOnlyCarriesTheInheritedOffset acceptanceData
    (some diff) daaScore (some virtual) = .ok ()) {tx : DomainTransaction}
    (accepted : tx ∈ acceptedTransactions acceptanceData) {point : DomainOutpoint}
    {created : UTXOEntry} (isCreated : createdEntry tx daaScore point = some created) :
    (∀ entry, diff.view virtual point = some entry → entry = created) ∧
    (diff.view virtual point = none → diff.toRemove.contains point = true ∨
    point ∈ spentInThisPast acceptanceData) := by
  rcases mem_flatMap.mp accepted with ⟨block, isBlock, mem⟩
  rcases mem_map.mp mem with ⟨data, kept, rfl⟩
  rcases mem_filter.mp kept with ⟨inBlock, isAccepted⟩
  rcases List.getElem?_of_mem inBlock with ⟨place, isAt⟩
  have checked := ok_of_forM (ok_of_forM acquitted block isBlock)
    (data, place) (mk_mem_zipIdx_iff_getElem?.mpr isAt)
  rw [checkTransaction, isAccepted] at checked
  rw [createdEntry] at isCreated
  split_ifs at isCreated with sameID
  rcases Option.map_eq_some_iff.mp isCreated with ⟨output, isOutput, rfl⟩
  have passed := ok_of_forM checked (output, point.index.toNat)
    (mk_mem_zipIdx_iff_getElem?.mpr isOutput)
  rw [checkOutput, ← sameID, UInt32.ofNat_toNat, inPastView_eq_view] at passed
  constructor
  · rintro ⟨_, _, _, _⟩ shown
    rw [shown] at passed
    simp_all [MutableUTXODiff.newUTXOEntry, isAcceptedCoinbase, acceptedUTXOBlockDAAScore]
  · intro missing
    rw [missing] at passed
    dsimp only at passed
    split_ifs at passed with isRemoved isSpent
    · exact .inl isRemoved
    · exact .inr isSpent

/-! ## The acceptance data in order -/

/-- The set after the accepted transactions, one after the other. -/
def applyInOrder (daaScore : UInt64) (transactions : List DomainTransaction)
    (set : UTXOSet) : UTXOSet :=
  transactions.foldl (fun set transaction => applyTransaction set transaction daaScore) set

/--
The outpoints created by an accepted transaction, or spent by one that has their
entry.
-/
def Touched (daaScore : UInt64) (transactions : List DomainTransaction)
    (outpoint : DomainOutpoint) : Prop :=
  ∃ transaction ∈ transactions, outpoint ∈ spentOutpoints transaction ∨
    (createdEntry transaction daaScore outpoint).isSome

/--
What the last of the transactions that touches an outpoint leaves there: the
coin it creates, or nothing if it spends the coin.
-/
def lastChange (daaScore : UInt64) (transactions : List DomainTransaction)
    (outpoint : DomainOutpoint) : Option (Option UTXOEntry) :=
  transactions.foldl (fun change transaction =>
      match createdEntry transaction daaScore outpoint with
      | some entry => some (some entry)
      | none =>
        if outpoint ∈ spentOutpoints transaction then some none else change)
    none

section LastChange

variable {txs : List DomainTransaction} {point : DomainOutpoint}

theorem lastChange_append (tx : DomainTransaction) : lastChange daaScore (txs ++ [tx]) point =
      match createdEntry tx daaScore point with
      | some entry => some (some entry)
      | none => if point ∈ spentOutpoints tx then some none
        else lastChange daaScore txs point :=
  foldl_append

theorem applyInOrder_eq (set : UTXOSet) : applyInOrder daaScore txs set point =
      (lastChange daaScore txs point).getD (set point) := by
  induction txs using reverseRecOn with
  | nil => rfl
  | append_singleton txs tx ih =>
    have last : applyInOrder daaScore (txs ++ [tx]) set =
        applyTransaction (applyInOrder daaScore txs set) tx daaScore := foldl_append
    rw [last, lastChange_append, applyTransaction, withoutInputs, ih]
    cases createdEntry tx daaScore point with
    | some entry => rfl
    | none => split_ifs <;> rfl

theorem touched_iff : Touched daaScore txs point ↔
      ∃ change, lastChange daaScore txs point = some change := by
  induction txs using reverseRecOn with
  | nil => simp [Touched, lastChange]
  | append_singleton txs tx ih =>
    have split : Touched daaScore (txs ++ [tx]) point ↔ Touched daaScore txs point ∨
        point ∈ spentOutpoints tx ∨ (createdEntry tx daaScore point).isSome := by
      simp [Touched, or_and_right, exists_or]
    rw [split, ih, lastChange_append]
    cases createdEntry tx daaScore point with
    | some entry => simp
    | none => split_ifs with isSpent <;> simp [isSpent]

theorem created_of_lastChange {entry : UTXOEntry} (last : lastChange daaScore txs point =
    some (some entry)) : ∃ tx ∈ txs, createdEntry tx daaScore point = some entry := by
  induction txs using reverseRecOn with
  | nil => cases last
  | append_singleton txs tx ih =>
    rw [lastChange_append] at last
    cases isCreated : createdEntry tx daaScore point with
    | some other =>
      rw [isCreated] at last
      cases last
      exact ⟨tx, by simp, isCreated⟩
    | none =>
      rw [isCreated] at last
      dsimp only at last
      split_ifs at last with isSpent
      · cases last
      rcases ih last with ⟨earlier, mem, creates⟩
      exact ⟨earlier, mem_append_left _ mem, creates⟩

end LastChange

/-- The view is what the acceptance data leaves, at the outpoints it touches. -/
def Agrees (acceptanceData : AcceptanceData) (diff : UTXODiff)
    (daaScore : UInt64) (virtual : UTXOSet) : Prop :=
  ∀ outpoint, Touched daaScore (acceptedTransactions acceptanceData) outpoint →
    diff.view virtual outpoint = applyInOrder daaScore (acceptedTransactions acceptanceData) virtual
    outpoint

/--
What an acquittal says nothing about.  A coin spent last is not in the view, and
a coin created last is not missing where its absence is excused, by the removals
of the diff or by the inputs of the accepted transactions.
-/
structure NothingHidden (acceptanceData : AcceptanceData) (diff : UTXODiff)
    (daaScore : UInt64) (virtual : UTXOSet) : Prop where
  spent : ∀ outpoint, lastChange daaScore
      (acceptedTransactions acceptanceData) outpoint = some none → diff.view virtual outpoint = none
  created : ∀ outpoint entry, lastChange daaScore (acceptedTransactions acceptanceData) outpoint =
      some (some entry) → diff.toRemove.contains outpoint = true ∨
      outpoint ∈ spentInThisPast acceptanceData → (diff.view virtual outpoint).isSome

/--
An acquitted block agrees with its acceptance data exactly if no coin spent last
is in the view and no coin created last is missing with an excuse.
-/
theorem agrees_iff_of_acquitted
    (acquitted : blockOnlyCarriesTheInheritedOffset acceptanceData (some diff)
      daaScore (some virtual) = .ok ()) : Agrees acceptanceData diff daaScore virtual ↔
      NothingHidden acceptanceData diff daaScore virtual := by
  constructor
  · intro agrees
    constructor
    · intro outpoint last
      rw [agrees outpoint (touched_iff.mpr ⟨_, last⟩), applyInOrder_eq, last]
      rfl
    · intro outpoint entry last _
      rw [agrees outpoint (touched_iff.mpr ⟨_, last⟩), applyInOrder_eq, last]
      rfl
  · intro hidden outpoint touched
    rcases touched_iff.mp touched with ⟨_ | created, last⟩
    · rw [applyInOrder_eq, last, hidden.spent outpoint last]
      rfl
    · rcases created_of_lastChange last with ⟨_, accepted, isCreated⟩
      rcases created_of_acquitted acquitted accepted isCreated with ⟨contents, excused⟩
      rw [applyInOrder_eq, last]
      cases shown : diff.view virtual outpoint with
      | some entry =>
        rw [contents entry shown]
        rfl
      | none =>
        have present := hidden.created outpoint created last (excused shown)
        rw [shown] at present
        cases present

/-! ## Acquittals on fixed data -/

theorem noScript_length_lt : ([] : List UInt8).length < 2 ^ 63 := by
  decide

def oneCoin : UTXOEntry := ⟨5, ⟨[], 0, noScript_length_lt⟩, 1, false⟩

/-- One accepted transaction, which spends the coin and creates nothing. -/
def spending : AcceptanceData :=
  [⟨[⟨⟨[⟨⟨.filled 1, 0⟩, some oneCoin⟩], [], subnetworkIDNative, .filled 2⟩, true⟩]⟩]

/-- A spent coin that the diff leaves in the view is not noticed. -/
theorem spentCoin_acquitted : blockOnlyCarriesTheInheritedOffset spending (some UTXODiff.empty) 7
        (some fun _ => some oneCoin) = .ok () ∧
      ¬ Agrees spending UTXODiff.empty 7 fun _ => some oneCoin := by
  refine ⟨rfl, fun agrees => ?_⟩
  have shown := agrees ⟨.filled 1, 0⟩ ⟨_, .head _, .inl (by decide)⟩
  revert shown
  decide

/-- One accepted transaction, which spends the coin and creates another. -/
def moving : AcceptanceData :=
  [⟨[⟨⟨[⟨⟨.filled 1, 0⟩, some oneCoin⟩], [⟨3, ⟨[], 0, noScript_length_lt⟩⟩],
    subnetworkIDNative, .filled 2⟩, true⟩]⟩]

/-- The diff of that transaction. -/
def movingDiff : UTXODiff :=
  ⟨(∅ : UTXOCollection).add ⟨.filled 2, 0⟩ ⟨3, ⟨[], 0, noScript_length_lt⟩, 7, false⟩,
    (∅ : UTXOCollection).add ⟨.filled 1, 0⟩ oneCoin⟩

theorem agrees_iff_of_acquitted_moving :
    blockOnlyCarriesTheInheritedOffset moving (some movingDiff) 7
        (some fun _ => some oneCoin) = .ok () ∧
      Agrees moving movingDiff 7 fun _ => some oneCoin := by
  have touched_cases {outpoint : DomainOutpoint}
      (touched : Touched 7 (acceptedTransactions moving) outpoint) :
      outpoint = ⟨.filled 1, 0⟩ ∨ outpoint = ⟨.filled 2, 0⟩ := by
    rcases touched with ⟨_, mem, touches⟩
    cases mem_singleton.mp mem
    rcases outpoint with ⟨id, index⟩
    rcases touches with isSpent | isCreated
    · exact .inl (mem_singleton.mp isSpent)
    · rw [createdEntry] at isCreated
      split_ifs at isCreated with sameID
      · have isFirst : index.toNat = 0 := by simpa using isCreated
        exact .inr (congrArg₂ _ sameID (UInt32.toNat_inj.mp isFirst))
      · cases isCreated
  refine ⟨rfl, (agrees_iff_of_acquitted rfl).mpr ⟨?_, ?_⟩⟩
  · intro outpoint last
    rcases touched_cases (touched_iff.mpr ⟨_, last⟩) with rfl | rfl
    · decide
    · cases last
  · intro outpoint entry last _
    rcases touched_cases (touched_iff.mpr ⟨_, last⟩) with rfl | rfl
    · cases last
    · decide

end Htnd.ConsensusState.InheritedOffset
