import Htnd.Utxo.Acceptance

/-!
# Two representations of one set

A replay of acceptance data keeps the set of unspent outputs twice: as a diff
over virtual's set, and as a multiset of serialised entries.  The diff finds
duplicates in its own two collections, which change with every transaction;
the multiset finds them in the diff the replay started from and in the list
of outpoints it has created.
-/

namespace Htnd.Utxo.Representations

open Lib.StampedCell Entry MutableDiff UtxoSet DiffRun TransactionView List
open Serialization Acceptance

/-! ## Bags of serialised entries -/

open Classical in
/-- The multiset in which every entry of a set occurs once. -/
noncomputable def bagOf (set : UTXOSet) : ByteMultiset :=
  fun bytes =>
    if ∃ entry outpoint, set outpoint = some entry ∧
      bytes = serializeUTXO entry outpoint then 1 else 0

theorem bagOf_serializeUTXO (set : UTXOSet) (entry : UTXOEntry) (point : DomainOutpoint) :
    bagOf set (serializeUTXO entry point) = indicator (set point) entry := by
  unfold bagOf indicator
  by_cases held : set point = some entry
  · rw [if_pos held, if_pos ⟨entry, point, held, rfl⟩]
  · rw [if_neg held, if_neg]
    rintro ⟨_, _, otherHeld, sameBytes⟩
    rcases utxo_injective sameBytes with ⟨rfl, rfl⟩
    exact held otherHeld

theorem bagOf_foreign {bytes : List UInt8} (foreign : Foreign bytes)
    (set : UTXOSet) : bagOf set bytes = 0 := by
  unfold bagOf
  rw [if_neg]
  rintro ⟨entry, point, -, sameBytes⟩
  exact foreign entry point sameBytes

variable {set : UTXOSet}

/-- A multiset is the bag of a set when all its multiplicities are. -/
theorem eq_bagOf_iff {bag : ByteMultiset}
    (noForeign : ∀ bytes, Foreign bytes → bag bytes = 0) : bag = bagOf set ↔ ∀ point entry,
    bag (serializeUTXO entry point) = indicator (set point) entry := by
  constructor
  · rintro rfl point entry
    exact bagOf_serializeUTXO set entry point
  · intro counts
    funext bytes
    by_cases foreign : Foreign bytes
    · rw [noForeign bytes foreign, bagOf_foreign foreign]
    · simp only [Foreign, not_forall, not_not] at foreign
      rcases foreign with ⟨entry, point, rfl⟩
      rw [counts, bagOf_serializeUTXO]

theorem eq_of_indicator_eq {first second : Option UTXOEntry}
    (same : ∀ entry, indicator first entry = indicator second entry) : first = second := by
  cases first with
  | some value =>
    have here := same value
    by_contra ne
    simp [indicator, Ne.symm ne] at here
  | none =>
    cases second with
    | none => rfl
    | some value =>
      have here := same value
      simp [indicator] at here

/--
If exchanging `believed` for `created` turns `held` into `next`, then either
the exchange was right, or nothing happened.
-/
theorem exchange_cases {held believed next : Option UTXOEntry} {created : UTXOEntry}
    (balance : ∀ entry, indicator held entry +
    (indicator (some created) entry - indicator believed entry) = indicator next entry) :
    (next = some created ∧ held = believed) ∨ (next = held ∧ believed = some created) := by
  by_cases right : next = some created
  · refine .inl ⟨right, eq_of_indicator_eq fun entry => ?_⟩
    have here := balance entry
    rw [right] at here
    omega
  have atCreated := balance created
  have believedCreated : believed = some created := by
    by_contra ne
    simp only [indicator] at atCreated
    split_ifs at atCreated
    · omega
    · omega
  refine .inr ⟨eq_of_indicator_eq fun entry => ?_, believedCreated⟩
  have here := balance entry
  rw [believedCreated] at here
  omega

/-! ## One transaction in both representations -/

/--
What shows where a successful call creates `created`: the entry itself,
unless its removal was pending, when the call only cancels that removal.
-/
def shownOnCreation (base : UTXOSet) (diff : UTXODiff) (transaction : DomainTransaction)
    (outpoint : DomainOutpoint) (created : UTXOEntry) : Option UTXOEntry :=
  if diff.toRemove.get outpoint = some created then
    (if outpoint ∈ spentOutpoints transaction then none
      else diff.toAdd.get outpoint).or (base outpoint)
  else some created

variable {entry : UTXOEntry}

theorem createCell_apply_eq {cell : Cell UTXOEntry} {base : Option UTXOEntry}
    (fresh : Creatable cell entry) : (createCell cell entry).apply base =
      if cell.remove = some entry then cell.add.or base else some entry := by
  rw [create_of_creatable fresh]
  split_ifs with pending
  · cases cell.add <;> rfl
  · rfl
  · rfl

variable {base : UTXOSet} {blockDAAScore : UInt64} {mud next : MutableUTXODiff}
  {skips : Bool} {tx : DomainTransaction} {daaScore : UInt64} {past : UTXODiff} {State : Type}

section

variable (spends : SpendsFrom (mud.view base) tx)
  (isOk : mud.addTransaction tx blockDAAScore skips = (next, none))

include spends isOk

theorem view_of_created {point : DomainOutpoint}
    (creation : createdEntry tx blockDAAScore point = some entry) :
    next.view base point = shownOnCreation base mud.toUTXODiff tx point entry := by
  rcases add_success isOk spends.1 with ⟨_, frame, spent, -, created⟩
  rcases created point entry creation with ⟨cell, fresh⟩
  rw [UTXODiff.view, cell, createCell_apply_eq fresh, shownOnCreation]
  by_cases mem : point ∈ spentOutpoints tx
  · rcases mem_map.mp mem with ⟨spend, inInputs, rfl⟩
    rw [spent spend inInputs, if_pos mem]
    rcases spendCell_of_view (spends.2 spend inInputs) with ⟨_, shape⟩ | ⟨wasEmpty, inBase, shape⟩
    · rw [shape]
      rfl
    · have notPending : mud.toRemove.get spend.1 = none := congrArg Cell.remove wasEmpty
      rw [shape, notPending, inBase]
      simp
  · rw [frame point mem, if_neg mem]
    rfl

end

/-- A call that succeeds has no more outputs than indices. -/
theorem addOutputs_fits {transactionID : DomainTransactionID} {coinbase : Bool} {index : Nat}
    {outputs : List DomainTransactionOutput} {undo : List MutableUTXODiff.UndoEntry}
    (started : index ≤ 2 ^ 32) (isOk : MutableUTXODiff.addOutputs transactionID coinbase
    blockDAAScore index outputs mud undo = (next, none)) : index + outputs.length ≤ 2 ^ 32 := by
  induction outputs generalizing index mud undo with
  | nil => exact started
  | cons output rest ih =>
    rw [MutableUTXODiff.addOutputs] at isOk
    split_ifs at isOk with tooLarge
    · cases isOk
    dsimp only at isOk
    cases step : mud.addEntry ⟨transactionID, UInt32.ofNat index⟩
      (MutableUTXODiff.newUTXOEntry output coinbase blockDAAScore) with
    | mk after err =>
      rw [step] at isOk
      cases err with
      | some err => cases isOk
      | none =>
        have fits := ih (by omega) isOk
        rw [length_cons]
        omega

theorem outputs_fit (isOk : mud.addTransaction tx blockDAAScore skips = (next, none)) :
    tx.outputs.length ≤ 2 ^ 32 := by
  rw [MutableUTXODiff.addTransaction] at isOk
  cases outcome : MutableUTXODiff.removeInputs skips tx.inputs mud [] with
  | mk middle rest =>
    rcases rest with ⟨_, _ | _⟩
    · rw [outcome] at isOk
      have fits := addOutputs_fits (Nat.zero_le _) isOk
      omega
    · rw [outcome] at isOk
      cases isOk

/--
The condition at one outpoint under which a transaction changes both
representations alike.  `createdHere` says whether the replay has created the
outpoint before.  Where the transaction creates an entry, either both sides
exchange the entry held for the created one, or both leave it.
-/
def AgreesAt (base : UTXOSet) (past : UTXODiff)
    (createdHere : DomainOutpoint → Bool) (diff : UTXODiff)
    (transaction : DomainTransaction) (daaScore : UInt64) (outpoint : DomainOutpoint) : Prop :=
  match createdEntry transaction daaScore outpoint with
  | none => outpoint ∈ spentOutpoints transaction → ¬ ((diff.toAdd.get outpoint).isSome ∧
        diff.toRemove.get outpoint = none ∧ (base outpoint).isSome)
  | some created =>
    let held := withoutInputs (diff.view base) transaction outpoint
    let believed := believedEntry past base (createdHere outpoint) outpoint created
    let shown := shownOnCreation base diff transaction outpoint created
    (shown = some created ∧ held = believed) ∨ (shown = held ∧ believed = some created)

/-- The multiplicities once the inputs of a transaction are removed. -/
theorem removeInputUTXOs_bagOf (spends : SpendsFrom set tx) (entry : UTXOEntry)
    (point : DomainOutpoint) : removeInputUTXOs false (bagOf set) tx.inputs
    (serializeUTXO entry point) = indicator (withoutInputs set tx point) entry := by
  rw [removeInputUTXOs_apply _ _ spends.1, bagOf_serializeUTXO, withoutInputs]
  by_cases mem : point ∈ spentOutpoints tx
  · rcases mem_map.mp mem with ⟨spend, inInputs, rfl⟩
    have holdsSpent := spends.2 spend inInputs
    rw [if_pos mem, holdsSpent]
    by_cases same : spend.2 = entry
    · have there : (spend.1, entry) ∈ resolvedInputs tx.inputs := by
        rw [← same]
        exact inInputs
      simp [indicator, same, there]
    have absent : (spend.1, entry) ∉ resolvedInputs tx.inputs := by
      intro there
      have holdsEntry := spends.2 (spend.1, entry) there
      rw [holdsSpent] at holdsEntry
      exact same (Option.some.inj holdsEntry)
    simp [indicator, same, absent]
  · have absent : (point, entry) ∉ resolvedInputs tx.inputs :=
      fun there => mem (mem_map.mpr ⟨_, there, rfl⟩)
    rw [if_neg mem, if_neg absent, Int.sub_zero]

/-- The exchange at one outpoint is right exactly when the sides agree. -/
theorem balance_iff_agreesAt (born : DomainOutpoint → Bool) (spends : SpendsFrom (mud.view base) tx)
    (isOk : mud.addTransaction tx daaScore skips = (next, none)) (outpoint : DomainOutpoint) :
    (∀ entry, indicator (withoutInputs (mud.view base) tx outpoint) entry + outputDelta past base
    (born outpoint) outpoint entry (createdEntry tx daaScore outpoint) =
    indicator (next.view base outpoint) entry) ↔ AgreesAt base past born mud.toUTXODiff tx daaScore
    outpoint := by
  cases creation : createdEntry tx daaScore outpoint with
  | none =>
    have exact := view_at_iff spends isOk outpoint
    rw [applyTransaction, RecordsExactlyAt, creation, eq_comm, Option.none_or] at exact
    rw [AgreesAt, creation]
    dsimp only at exact ⊢
    rw [← exact]
    simp only [outputDelta, Int.add_zero]
    constructor
    · exact eq_of_indicator_eq
    · intro same entry
      rw [same]
  | some created =>
    rw [AgreesAt, creation, view_of_created spends isOk creation]
    dsimp only [outputDelta]
    constructor
    · exact exchange_cases
    · rintro (⟨shown, held⟩ | ⟨shown, believed⟩) entry
      · rw [shown, held]
        omega
      · rw [shown, believed]
        omega

variable {state : MultisetReplay} {born : DomainOutpoint → Bool}

/-- One transaction of the replay, in both representations. -/
theorem applyTransaction_agrees_iff (past : UTXODiff)
    (agrees : state.multiset = bagOf (mud.view base))
    (notes : ∀ point, state.addedHere.contains point = born point)
    (spends : SpendsFrom (mud.view base) tx)
    (isOk : mud.addTransaction tx daaScore skips = (next, none)) : ∃ nextState,
    applyTransactionToMultiset (some (checkHeld past base)) false daaScore state tx tx.isCoinBase =
    (nextState, none) ∧ (∀ point, nextState.addedHere.contains point =
    (born point || (createdEntry tx daaScore point).isSome)) ∧
    (nextState.multiset = bagOf (next.view base) ↔ ∀ point,
    AgreesAt base past born mud.toUTXODiff tx daaScore point) := by
  rcases addOutputUTXOs_apply past base tx.id
      tx.isCoinBase daaScore 0 tx.outputs
      { state with
        multiset := removeInputUTXOs false state.multiset tx.inputs }
      (by rw [zero_add]; exact outputs_fit isOk) with
    ⟨nextState, run, added, foreign, counts⟩
  have created : ∀ point, createdFrom tx.id tx.isCoinBase daaScore 0 tx.outputs point =
        createdEntry tx daaScore point := by
    simp [createdFrom, createdEntry]
  refine ⟨nextState, run, ?_, ?_⟩
  · intro point
    rw [← notes point, ← created point, Bool.eq_iff_iff]
    simpa using added point
  · have noForeign : ∀ bytes, Foreign bytes → nextState.multiset bytes = 0 := by
      intro bytes isForeign
      rw [foreign bytes isForeign]
      dsimp only
      rw [removeInputUTXOs_foreign isForeign, agrees, bagOf_foreign isForeign]
    rw [eq_bagOf_iff noForeign]
    refine forall_congr' fun point => ?_
    rw [← balance_iff_agreesAt born spends isOk point]
    refine forall_congr' fun _ => ?_
    rw [counts]
    dsimp only
    rw [agrees, removeInputUTXOs_bagOf spends, created, notes]

/-! ## Whole replays -/

/-- A replay of a list of accepted transactions. -/
def replay {State : Type} (apply : ReplayStep State) :
    List DomainTransaction → State → State × Option DiffError
  | [], state => (state, none)
  | transaction :: rest, state =>
    match apply state transaction transaction.isCoinBase with
    | (state, some err) => (state, some err)
    | (state, none) => replay apply rest state

/-- Go on from an outcome unless it is an error. -/
def andThen {State : Type} (next : State → State × Option DiffError) :
    State × Option DiffError → State × Option DiffError
  | (state, some err) => (state, some err)
  | (state, none) => next state

variable (apply : ReplayStep State)

theorem replay_append (first second : List DomainTransaction) (state : State) :
    replay apply (first ++ second) state = andThen (replay apply second)
    (replay apply first state) := by
  induction first generalizing state with
  | nil => rfl
  | cons tx rest ih =>
    rw [cons_append, replay, replay]
    cases apply state tx tx.isCoinBase with
    | mk after err =>
      cases err with
      | some err => rfl
      | none => exact ih after

variable {txs : List DomainTransaction}

theorem replay_success_earlier {apply : ReplayStep State} {prior : List DomainTransaction}
    {state : State} (isPrefix : prior <+: txs) (isOk : (replay apply txs state).2 = none) :
    (replay apply prior state).2 = none := by
  rcases isPrefix with ⟨_, rfl⟩
  rw [replay_append] at isOk
  cases outcome : replay apply prior state with
  | mk after err =>
    cases err with
    | none => rfl
    | some err =>
      rw [outcome] at isOk
      cases isOk

theorem forEachAcceptedInBlock_eq_replay (place : Nat) (data : List TransactionAcceptanceData)
    (state : State) : forEachAcceptedInBlock apply place data state =
    replay apply ((data.filter (·.isAccepted)).map (·.transaction))
        state := by
  induction data generalizing place state with
  | nil => rfl
  | cons first rest ih =>
    rw [forEachAcceptedInBlock]
    cases accepted : first.isAccepted with
    | false =>
      rw [filter_cons_of_neg (by simp [accepted])]
      exact ih (place + 1) state
    | true =>
      rw [filter_cons_of_pos accepted, map_cons, replay]
      rw [isAcceptedCoinbase]
      cases apply state first.transaction first.transaction.isCoinBase with
      | mk after err =>
        cases err with
        | some err => rfl
        | none => exact ih (place + 1) after

theorem forEachAccepted_eq_replay (acceptanceData : AcceptanceData) (state : State) :
    forEachAcceptedTransaction apply acceptanceData state =
    replay apply (acceptedTransactions acceptanceData) state := by
  induction acceptanceData generalizing state with
  | nil => rfl
  | cons block rest ih =>
    rw [forEachAcceptedTransaction, forEachAcceptedInBlock_eq_replay,
      acceptedTransactions, flatMap_cons, replay_append]
    cases replay apply ((block.transactionAcceptanceData.filter
      (·.isAccepted)).map (·.transaction)) state with
    | mk after err =>
      cases err with
      | some err => rfl
      | none => exact ih after

/-- The step of `ApplyAcceptanceDataToDiff`. -/
def diffStep (daaScore : UInt64) : ReplayStep MutableUTXODiff :=
  fun diff transaction _ => diff.addOutputsSpendingResolvedInputs transaction
    (acceptedUTXOBlockDAAScore daaScore)

/-- The step of `ApplyAcceptanceDataToMultiset` over a past diff. -/
def multisetStep (base : UTXOSet) (past : UTXODiff) (daaScore : UInt64) :
    ReplayStep MultisetReplay :=
  applyTransactionToMultiset (some (checkHeld past base)) false daaScore

/--
Each transaction's resolved inputs carry the entries held when the in-order
application reaches it.
-/
def ResolvedInOrder (base : UTXOSet) (daaScore : UInt64) :
    MutableUTXODiff → List DomainTransaction → Prop
  | _, [] => True
  | mud, transaction :: rest =>
    SpendsFrom (mud.view base) transaction ∧ ResolvedInOrder base daaScore
        (mud.addOutputsSpendingResolvedInputs transaction daaScore).1 rest

/-- Every transaction, when the application reaches it, meets `AgreesAt`. -/
def EveryStepAgrees (base : UTXOSet) (past : UTXODiff) (daaScore : UInt64) :
    (DomainOutpoint → Bool) → MutableUTXODiff → List DomainTransaction → Prop
  | _, _, [] => True
  | createdHere, mud, transaction :: rest =>
    (∀ outpoint, AgreesAt base past createdHere mud.toUTXODiff transaction daaScore outpoint) ∧
    EveryStepAgrees base past daaScore (fun outpoint => createdHere outpoint ||
      (createdEntry transaction daaScore outpoint).isSome)
      (mud.addOutputsSpendingResolvedInputs transaction daaScore).1 rest

/-- The replays agree after every prefix of the transactions. -/
def AgreeThroughout (base : UTXOSet) (past : UTXODiff) (daaScore : UInt64) (mud : MutableUTXODiff)
    (state : MultisetReplay) (transactions : List DomainTransaction) : Prop :=
  ∀ earlier, earlier <+: transactions → ∃ nextMud nextState,
    replay (diffStep daaScore) earlier mud = (nextMud, none) ∧
    replay (multisetStep base past daaScore) earlier state = (nextState, none) ∧
      nextState.multiset = bagOf (nextMud.view base)

/-- Agreement throughout, one transaction at a time. -/
theorem agreeThroughout_cons {nextState : MultisetReplay} {rest : List DomainTransaction}
    (agrees : state.multiset = bagOf (mud.view base))
    (diffSuccess : diffStep daaScore mud tx tx.isCoinBase = (next, none))
    (multisetSuccess : multisetStep base past daaScore state tx tx.isCoinBase = (nextState, none)) :
    AgreeThroughout base past daaScore mud state (tx :: rest) ↔
    AgreeThroughout base past daaScore next nextState rest := by
  have diffReplay : ∀ prior, replay (diffStep daaScore) (tx :: prior) mud =
        replay (diffStep daaScore) prior next := by
    intro prior
    rw [replay, diffSuccess]
  have multisetReplay : ∀ prior, replay (multisetStep base past daaScore) (tx :: prior) state =
      replay (multisetStep base past daaScore) prior nextState := by
    intro prior
    rw [replay, multisetSuccess]
  constructor
  · intro throughout prior isPrefix
    have longer := throughout (tx :: prior) (cons_prefix_cons.mpr ⟨rfl, isPrefix⟩)
    rw [diffReplay, multisetReplay] at longer
    exact longer
  · intro throughout prior isPrefix
    cases prior with
    | nil => exact ⟨mud, state, rfl, rfl, agrees⟩
    | cons first others =>
      rcases cons_prefix_cons.mp isPrefix with ⟨rfl, shorter⟩
      rw [diffReplay, multisetReplay]
      exact throughout others shorter

/-- The run lemma: agreement throughout is agreement of every step. -/
theorem agreeThroughout_iff {mud : MutableUTXODiff}
    (agrees : state.multiset = bagOf (mud.view base))
    (notes : ∀ point, state.addedHere.contains point = born point)
    (resolved : ResolvedInOrder base daaScore mud txs)
    (isOk : (replay (diffStep daaScore) txs mud).2 = none) :
    AgreeThroughout base past daaScore mud state txs ↔ EveryStepAgrees base past daaScore born mud
    txs := by
  induction txs generalizing mud state born with
  | nil =>
    refine iff_of_true ?_ trivial
    intro _ isPrefix
    rw [prefix_nil.mp isPrefix]
    exact ⟨mud, state, rfl, rfl, agrees⟩
  | cons tx rest ih =>
    rcases resolved with ⟨spends, restResolved⟩
    cases step : mud.addOutputsSpendingResolvedInputs tx daaScore with
    | mk next err =>
      have diffStepIs : diffStep daaScore mud tx tx.isCoinBase = (next, err) := step
      rw [replay, diffStepIs] at isOk
      rw [step] at restResolved
      rw [EveryStepAgrees, step]
      cases err with
      | some err => cases isOk
      | none =>
        rcases applyTransaction_agrees_iff past agrees notes spends step with
          ⟨_, multisetStepIs, nextNotes, stepAgrees⟩
        rw [agreeThroughout_cons agrees diffStepIs multisetStepIs, ← stepAgrees]
        constructor
        · intro throughout
          rcases throughout [] nil_prefix with ⟨_, _, ⟨⟩, ⟨⟩, nextAgrees⟩
          exact ⟨nextAgrees, (ih nextAgrees nextNotes restResolved isOk).mp throughout⟩
        · rintro ⟨nextAgrees, restAgrees⟩
          exact (ih nextAgrees nextNotes restResolved isOk).mpr restAgrees

/-- The lookup in the base that the callers of the replay provide. -/
def lookupIn (base : UTXOSet) : BaseUTXO := fun outpoint => .ok (base outpoint)

/-- Acceptance data that accepts the given transactions in one block. -/
def acceptAll (transactions : List DomainTransaction) : AcceptanceData :=
  [⟨transactions.map fun transaction => ⟨transaction, true⟩⟩]

theorem accepted_acceptAll (txs : List DomainTransaction) :
    acceptedTransactions (acceptAll txs) = txs := by
  simp [acceptedTransactions, acceptAll, filter_map, Function.comp_def]

/--
The diff and the multiset represent the same set after the acceptance data and
after everything that accepts an initial part of its transactions, exactly when
every accepted transaction, as it is reached, finds the entry the multiset's
duplicate check believes in and cancels no removal that uncovers another coin.
-/
theorem acceptance_representations_agree_iff (base : UTXOSet)
    (past : UTXODiff) (multiset : ByteMultiset)
    (acceptanceData : AcceptanceData) (daaScore : UInt64)
    (sameSet : multiset = bagOf (past.view base))
    (resolved : ResolvedInOrder base daaScore (.ofDiff past) (acceptedTransactions acceptanceData))
    (success : (applyAcceptanceDataToDiff (.ofDiff past) acceptanceData
      daaScore).2 = none) : (∀ earlier : AcceptanceData,
        acceptedTransactions earlier <+: acceptedTransactions acceptanceData →
        applyAcceptanceDataToMultiset multiset earlier daaScore (some past) (some (lookupIn base)) =
          (bagOf ((applyAcceptanceDataToDiff (.ofDiff past) earlier daaScore).1.view base), none)) ↔
      EveryStepAgrees base past daaScore (fun _ => false) (.ofDiff past)
        (acceptedTransactions acceptanceData) := by
  have diffIs : ∀ data, applyAcceptanceDataToDiff (.ofDiff past) data
      daaScore = replay (diffStep daaScore) (acceptedTransactions data) (.ofDiff past) :=
    fun data => forEachAccepted_eq_replay _ data _
  have multisetIs : ∀ data, applyAcceptanceDataToMultiset multiset data daaScore (some past)
      (some (lookupIn base)) = ((replay (multisetStep base past daaScore)
      (acceptedTransactions data) ⟨multiset, []⟩).1.multiset,
      (replay (multisetStep base past daaScore) (acceptedTransactions data) ⟨multiset, []⟩).2) := by
    intro data
    rw [applyAcceptanceDataToMultiset, forEachAccepted_eq_replay]
    rfl
  rw [diffIs] at success
  have starts : ∀ point, (MultisetReplay.mk multiset []).addedHere.contains point = false :=
    fun _ => rfl
  rw [← agreeThroughout_iff sameSet starts resolved success]
  constructor
  · intro agree earlier isPrefix
    have same := agree (acceptAll earlier) (by rw [accepted_acceptAll]; exact isPrefix)
    rw [multisetIs, diffIs, accepted_acceptAll, Prod.mk.injEq] at same
    exact ⟨_, _, Prod.ext rfl (replay_success_earlier isPrefix success),
      Prod.ext rfl same.2, same.1⟩
  · intro throughout earlier isPrefix
    rcases throughout _ isPrefix with ⟨_, _, diffReplay, multisetReplay, same⟩
    rw [multisetIs, diffIs, diffReplay, multisetReplay, same]

/--
The coin is in the starting diff twice: virtual holds it at score 5, the past
diff removes that and adds it at 7.  The duplicate check sees only the
removal, so a coinbase that creates the coin again at score 9 leaves the
multiset with two of them, where the diff has one.
-/
theorem acceptance_counts_restamped_coin_twice :
    ∃ (next : MutableUTXODiff) (multiset : ByteMultiset),
      ResolvedInOrder (coinbaseSet 5) 9 (.ofDiff (restamp 5 7))
        (acceptedTransactions (acceptAll [mintCoinbase])) ∧
      applyAcceptanceDataToDiff (.ofDiff (restamp 5 7))
        (acceptAll [mintCoinbase]) 9 = (next, none) ∧
      applyAcceptanceDataToMultiset (bagOf ((restamp 5 7).view (coinbaseSet 5)))
          (acceptAll [mintCoinbase]) 9 (some (restamp 5 7))
          (some (lookupIn (coinbaseSet 5))) = (multiset, none) ∧
      next.view (coinbaseSet 5) coinbaseOutpoint = some (coinbaseCoin 9) ∧
      multiset (serializeUTXO (coinbaseCoin 7) coinbaseOutpoint) = 1 ∧
      bagOf (next.view (coinbaseSet 5)) (serializeUTXO (coinbaseCoin 7) coinbaseOutpoint) = 0 := by
  refine ⟨_, (bagOf ((restamp 5 7).view (coinbaseSet 5))).add
    (serializeUTXO (coinbaseCoin 9) coinbaseOutpoint),
    ⟨mint_spendsFrom _, trivial⟩, rfl, rfl, rfl, ?_, ?_⟩
  · have added := addUTXO_apply false (bagOf ((restamp 5 7).view (coinbaseSet 5))) (coinbaseCoin 9)
      (coinbaseCoin 7) coinbaseOutpoint coinbaseOutpoint
    rw [bagOf_serializeUTXO] at added
    exact added.trans (by decide)
  · rw [bagOf_serializeUTXO]
    rfl

/-- Over nothing, minting the coin and spending it agrees at every step. -/
theorem mint_spend_everyStepAgrees : EveryStepAgrees (fun _ => none) .empty 9 (fun _ => false)
    (.ofDiff .empty) [mintCoinbase, spendCoinbase 9] := by
  refine ⟨fun point => ?_, fun point => ?_, trivial⟩
  · rw [AgreesAt]
    cases createdEntry mintCoinbase 9 point with
    | none => exact nofun
    | some created =>
      left
      constructor
      · rfl
      · exact ite_self none
  · have nothingCreated : createdEntry (spendCoinbase 9) 9 point = none := by
      simp [createdEntry, spendCoinbase]
    rw [AgreesAt, nothingCreated]
    rintro - ⟨-, -, inBase⟩
    cases inBase

/-- After the mint alone, and after mint and spend, the two agree. -/
theorem acceptance_representations_agree_mint_spend : (applyAcceptanceDataToDiff (.ofDiff .empty)
        (acceptAll [mintCoinbase, spendCoinbase 9]) 9).2 = none ∧
      applyAcceptanceDataToMultiset (bagOf fun _ => none) (acceptAll [mintCoinbase]) 9 (some .empty)
          (some (lookupIn fun _ => none)) = (bagOf ((applyAcceptanceDataToDiff (.ofDiff .empty)
          (acceptAll [mintCoinbase]) 9).1.view fun _ => none), none) ∧
      applyAcceptanceDataToMultiset (bagOf fun _ => none)
          (acceptAll [mintCoinbase, spendCoinbase 9]) 9 (some .empty)
          (some (lookupIn fun _ => none)) = (bagOf ((applyAcceptanceDataToDiff (.ofDiff .empty)
          (acceptAll [mintCoinbase, spendCoinbase 9]) 9).1.view fun _ => none), none) := by
  have agree := (acceptance_representations_agree_iff (fun _ => none)
    .empty (bagOf fun _ => none) (acceptAll [mintCoinbase, spendCoinbase 9])
    9 rfl ⟨mint_spendsFrom _, spend_spendsFrom rfl, trivial⟩ rfl).mpr mint_spend_everyStepAgrees
  exact ⟨rfl, agree _ ⟨[spendCoinbase 9], rfl⟩, agree _ ⟨[], rfl⟩⟩

end Htnd.Utxo.Representations
