import Htnd.ConsensusHashing.SignatureHash

/-!
# What signature hashes commit to

A call returns the same hash whatever the earlier calls on the same transaction
left in the reused values, so the hash is a function of the transaction, the
index and the hash type.  If the writers did not collide on what was written,
equal Schnorr hashes were written with equal bytes, and the bytes determine the
hash type and the fields that it commits to.
-/

namespace Htnd.ConsensusHashing.Commitments

open Lib.Calls Lib.Encodings Lib.LittleEndian Utxo.Entry Consensus.Transactions
open SignatureHash List Option

variable (writers : HashWriters) (tx : Transaction)

/-! ## Reused values do not change a result -/

/-- Every field that is filled holds what would be computed for it. -/
structure Reusable (reused : SighashReusedValues) : Prop where
  previousOutputs : ∀ hash, reused.previousOutputsHash = some hash →
    hash = writers.transactionSigning (previousOutputsBytes tx)
  sequences : ∀ hash, reused.sequencesHash = some hash →
    hash = writers.transactionSigning (sequencesBytes tx)
  sigOpCounts : ∀ hash, reused.sigOpCountsHash = some hash →
    hash = writers.transactionSigning (sigOpCountsBytes tx)
  outputs : ∀ hash, reused.outputsHash = some hash →
    hash = writers.transactionSigning (outputsBytes tx)
  payload : ∀ hash, reused.payloadHash = some hash → tx.subnetworkID ≠ subnetworkIDNative →
    hash = writers.transactionSigning (lengthPrefixed tx.payload)

theorem reusable_fresh : Reusable writers tx {} := by
  constructor <;> exact fun _ filled => absurd filled.symm (some_ne_none _)

theorem reusable_precompute : Reusable writers tx (precomputeSighashReusedValues writers tx) := by
  constructor
  · exact fun _ filled => (some.inj filled).symm
  · exact fun _ filled => (some.inj filled).symm
  · exact fun _ filled => (some.inj filled).symm
  · exact fun _ filled => (some.inj filled).symm
  · intro _ filled other
    simp only [precomputeSighashReusedValues, if_neg other] at filled
    exact (some.inj filled).symm

/-- The call returns the value from all reusable values and keeps them so. -/
def Returns {α : Type} (call : StateM SighashReusedValues α) (value : α) :
    Prop :=
  ∀ reused, Reusable writers tx reused →
    (call.run reused).1 = value ∧ Reusable writers tx (call.run reused).2

variable {writers tx}

variable {α : Type}

theorem Returns.pure (value : α) : Returns writers tx (Pure.pure value) value :=
  fun _ reusable => ⟨rfl, reusable⟩

variable {β : Type}

theorem Returns.bind {call : StateM SighashReusedValues α}
    {next : α → StateM SighashReusedValues β} {value : α} {result : β}
    (first : Returns writers tx call value) (second : Returns writers tx (next value) result) :
    Returns writers tx (call >>= next) result := by
  intro reused reusable
  rcases first reused reusable with ⟨returned, kept⟩
  change ((next (call.run reused).1).run (call.run reused).2).1 = _ ∧
    Reusable writers tx ((next (call.run reused).1).run (call.run reused).2).2
  rw [returned]
  exact second _ kept

theorem Returns.map_run {ε : Type} {call : ExceptT ε (StateM SighashReusedValues) α}
    {result : Except ε α} (returns : Returns writers tx call.run result) (change : α → β) :
    Returns writers tx (call >>= fun value => Pure.pure (change value)).run
    (result.map change) := by
  rw [ExceptT.run_bind]
  refine returns.bind ?_
  cases result with
  | error fails => exact .pure _
  | ok value => exact .pure _

variable {bytes : List UInt8}

theorem getReused_returns {field : SighashReusedValues → Option DomainHash}
    {fill : DomainHash → SighashReusedValues → SighashReusedValues}
    (filled : ∀ reused hash, Reusable writers tx reused → field reused = some hash →
    hash = writers.transactionSigning bytes) (keeps : ∀ reused, Reusable writers tx reused →
    Reusable writers tx (fill (writers.transactionSigning bytes) reused)) :
    Returns writers tx (getReused writers field fill bytes) (writers.transactionSigning bytes) := by
  intro reused reusable
  cases isField : field reused with
  | some hash =>
    have isRun : (getReused writers field fill bytes).run reused = (hash, reused) := by
      simp [getReused, isField]
      rfl
    rw [isRun]
    exact ⟨filled reused hash reusable isField, reusable⟩
  | none =>
    have isRun : (getReused writers field fill bytes).run reused =
        (writers.transactionSigning bytes, fill (writers.transactionSigning bytes) reused) := by
      simp [getReused, isField]
      rfl
    rw [isRun]
    exact ⟨rfl, keeps reused reusable⟩

variable (writers tx)

/-! ## The hashes of the fields -/

def previousOutputsHash (hashType : SigHashType) : DomainHash :=
  if hashType.isSigHashAnyOneCanPay then zeroHash
  else writers.transactionSigning (previousOutputsBytes tx)

def sequencesHash (hashType : SigHashType) : DomainHash :=
  if hashType.isSigHashSingle || hashType.isSigHashAnyOneCanPay ||
      hashType.isSigHashNone then zeroHash
  else writers.transactionSigning (sequencesBytes tx)

def sigOpCountsHash (hashType : SigHashType) : DomainHash :=
  if hashType.isSigHashAnyOneCanPay then zeroHash
  else writers.transactionSigning (sigOpCountsBytes tx)

def outputsHash (inputIndex : Nat) (hashType : SigHashType) : DomainHash :=
  if hashType.isSigHashNone then zeroHash
  else if hashType.isSigHashSingle then
    match tx.outputs[inputIndex]? with
    | none => zeroHash
    | some txOut => writers.transactionSigning (hashTxOut txOut)
  else writers.transactionSigning (outputsBytes tx)

def payloadHash : DomainHash :=
  if tx.subnetworkID = subnetworkIDNative then zeroHash
  else writers.transactionSigning (lengthPrefixed tx.payload)

def fieldHashes (inputIndex : Nat) (hashType : SigHashType) : FieldHashes where
  previousOutputs := previousOutputsHash writers tx hashType
  sequences := sequencesHash writers tx hashType
  sigOpCounts := sigOpCountsHash writers tx hashType
  outputs := outputsHash writers tx inputIndex hashType
  payload := payloadHash writers tx

variable {writers tx} {inputIndex : Nat} {hashType : SigHashType}

theorem getPreviousOutputsHash_returns : Returns writers tx
    (getPreviousOutputsHash writers tx hashType) (previousOutputsHash writers tx hashType) := by
  rw [getPreviousOutputsHash, previousOutputsHash]
  split_ifs
  · exact .pure zeroHash
  · apply getReused_returns
    · exact fun reused hash reusable => reusable.previousOutputs hash
    · exact fun reused reusable => { reusable with
        previousOutputs := fun hash filled => (some.inj filled).symm }

theorem getSequencesHash_returns : Returns writers tx (getSequencesHash writers tx hashType)
    (sequencesHash writers tx hashType) := by
  rw [getSequencesHash, sequencesHash]
  split_ifs
  · exact .pure zeroHash
  · apply getReused_returns
    · exact fun reused hash reusable => reusable.sequences hash
    · exact fun reused reusable => { reusable with
        sequences := fun hash filled => (some.inj filled).symm }

theorem getSigOpCountsHash_returns : Returns writers tx (getSigOpCountsHash writers tx hashType)
    (sigOpCountsHash writers tx hashType) := by
  rw [getSigOpCountsHash, sigOpCountsHash]
  split_ifs
  · exact .pure zeroHash
  · apply getReused_returns
    · exact fun reused hash reusable => reusable.sigOpCounts hash
    · exact fun reused reusable => { reusable with
        sigOpCounts := fun hash filled => (some.inj filled).symm }

theorem getOutputsHash_returns : Returns writers tx (getOutputsHash writers tx inputIndex hashType)
    (outputsHash writers tx inputIndex hashType) := by
  rw [getOutputsHash, outputsHash]
  split_ifs
  · exact .pure zeroHash
  · cases tx.outputs[inputIndex]? with
    | none => exact .pure zeroHash
    | some txOut => exact .pure _
  · apply getReused_returns
    · exact fun reused hash reusable => reusable.outputs hash
    · exact fun reused reusable => { reusable with
        outputs := fun hash filled => (some.inj filled).symm }

theorem getPayloadHash_returns : Returns writers tx (getPayloadHash writers tx)
      (payloadHash writers tx) := by
  rw [getPayloadHash, payloadHash]
  split_ifs with native
  · exact .pure zeroHash
  apply getReused_returns
  · exact fun reused hash reusable filled => reusable.payload hash filled native
  · exact fun reused reusable => { reusable with
      payload := fun hash filled _ => (some.inj filled).symm }

theorem calculateSignatureHash_returns (txIn : TransactionInput) (utxoEntry : UTXOEntry) :
    Returns writers tx (calculateSignatureHash writers tx inputIndex txIn utxoEntry hashType)
    (writers.transactionSigning (signatureBytes tx txIn utxoEntry hashType
    (fieldHashes writers tx inputIndex hashType))) := by
  refine .bind getPreviousOutputsHash_returns ?_
  refine .bind getSequencesHash_returns ?_
  refine .bind getSigOpCountsHash_returns ?_
  refine .bind getOutputsHash_returns ?_
  refine .bind getPayloadHash_returns ?_
  exact .pure _

/-! ## The hash as a function -/

inductive Scheme where
  | schnorr
  | ecdsa
  | mldsa44
deriving DecidableEq

/-- The signature hash of a scheme. -/
def calculateSignatureHashOf (writers : HashWriters) (tx : Transaction) :
    Scheme → Nat → SigHashType → ExceptT SigHashFailure (StateM SighashReusedValues) DomainHash
  | .schnorr => calculateSignatureHashSchnorr writers tx
  | .ecdsa => calculateSignatureHashECDSA writers tx
  | .mldsa44 => calculateSignatureHashMLDSA44 writers tx

/-- What a scheme makes of the Schnorr hash. -/
def schemeHash (writers : HashWriters) : Scheme → DomainHash → DomainHash
  | .schnorr, hash => hash
  | .ecdsa, hash => writers.transactionSigningECDSA hash.hashArray
  | .mldsa44, hash => writers.transactionSigningMLDSA44 hash.hashArray

/-- The bytes hashed for a signature of an input with its UTXO entry. -/
def hashedBytes (writers : HashWriters) (tx : Transaction) (txIn : TransactionInput)
    (utxoEntry : UTXOEntry) (inputIndex : Nat) (hashType : SigHashType) : List UInt8 :=
  signatureBytes tx txIn utxoEntry hashType (fieldHashes writers tx inputIndex hashType)

def schnorrHash (writers : HashWriters) (tx : Transaction) (inputIndex : Nat)
    (hashType : SigHashType) : Except SigHashFailure DomainHash :=
  if !hashType.isStandardSigHashType then .error .notStandard
  else match tx.inputs[inputIndex]? with
    | none => .error .panicked
    | some txIn => match txIn.utxoEntry with
      | none => .error .panicked
      | some utxoEntry => .ok (writers.transactionSigning
          (hashedBytes writers tx txIn utxoEntry inputIndex hashType))

def signatureHash (writers : HashWriters) (tx : Transaction) (scheme : Scheme)
    (inputIndex : Nat) (hashType : SigHashType) : Except SigHashFailure DomainHash :=
  (schnorrHash writers tx inputIndex hashType).map (schemeHash writers scheme)

theorem calculateSignatureHashSchnorr_returns : Returns writers tx
      (calculateSignatureHashSchnorr writers tx inputIndex hashType).run
      (schnorrHash writers tx inputIndex hashType) := by
  rw [calculateSignatureHashSchnorr, schnorrHash]
  cases hashType.isStandardSigHashType with
  | false => exact .pure _
  | true =>
    cases tx.inputs[inputIndex]? with
    | none => exact .pure _
    | some txIn =>
      cases utxo : txIn.utxoEntry with
      | none =>
        simp only [utxo]
        exact .pure _
      | some utxoEntry =>
        have hashed : Returns writers tx (calculateSignatureHash writers tx inputIndex txIn
            utxoEntry hashType >>= fun hash => Pure.pure (Except.ok hash : Except SigHashFailure _))
            (.ok (writers.transactionSigning (hashedBytes writers tx txIn utxoEntry inputIndex
            hashType))) := Returns.bind (calculateSignatureHash_returns txIn utxoEntry) (.pure _)
        simp only [utxo]
        exact hashed

theorem hashOf_returns (scheme : Scheme) : Returns writers tx
      (calculateSignatureHashOf writers tx scheme inputIndex hashType).run
      (signatureHash writers tx scheme inputIndex hashType) := by
  have schnorr := @calculateSignatureHashSchnorr_returns writers tx inputIndex hashType
  cases scheme with
  | schnorr =>
    rw [signatureHash, show schemeHash writers .schnorr = id from rfl, Except.map_id]
    exact schnorr
  | ecdsa => exact schnorr.map_run _
  | mldsa44 => exact schnorr.map_run _

/-! ## Written fields are known -/

theorem hash_delimited : SelfDelimiting DomainHash.hashArray := by
  refine of_length ?_ DomainHash.length_eq
  intro first _ same
  cases first
  cases same
  rfl

theorem subnetworkID_delimited : SelfDelimiting DomainSubnetworkID.bytes := by
  refine of_length ?_ DomainSubnetworkID.length_eq
  intro first _ same
  cases first
  cases same
  rfl

theorem uint8_delimited : SelfDelimiting fun value : UInt8 => encode 1 value.toNat :=
  of_encode (fun _ _ => UInt8.toNat_inj.mp) UInt8.toNat_lt

theorem uint16_delimited : SelfDelimiting fun value : UInt16 => encode 2 value.toNat :=
  of_encode (fun _ _ => UInt16.toNat_inj.mp) UInt16.toNat_lt

theorem uint32_delimited : SelfDelimiting fun value : UInt32 => encode 4 value.toNat :=
  of_encode (fun _ _ => UInt32.toNat_inj.mp) UInt32.toNat_lt

theorem uint64_delimited : SelfDelimiting fun value : UInt64 => encode 8 value.toNat :=
  of_encode (fun _ _ => UInt64.toNat_inj.mp) UInt64.toNat_lt

theorem hashOutpoint_delimited : SelfDelimiting hashOutpoint := by
  rintro ⟨_, _⟩ ⟨_, _⟩ _ _ same
  simp only [hashOutpoint, append_assoc] at same
  rcases hash_delimited _ _ _ _ same with ⟨sameID, same⟩
  rcases uint32_delimited _ _ _ _ same with ⟨sameIndex, same⟩
  exact ⟨by rw [sameID, sameIndex], same⟩

/-- The version and the script, which is no longer than a slice can be. -/
theorem scriptPublicKey_delimited : SelfDelimiting fun scriptPublicKey : ScriptPublicKey =>
      encode 2 scriptPublicKey.version.toNat ++ lengthPrefixed scriptPublicKey.script := by
  rintro ⟨script, version, fits⟩ ⟨_, _, fits'⟩ _ _ same
  rcases uint16_delimited _ _ _ _ same with ⟨sameVersion, same⟩
  rcases lengthPrefixed_append_inj (lt_trans fits (by decide))
    (lt_trans fits' (by decide)) same with ⟨sameScript, sameRest⟩
  subst sameVersion sameScript
  exact ⟨rfl, sameRest⟩

theorem hashTxOut_delimited : SelfDelimiting hashTxOut := by
  rintro ⟨_, _⟩ ⟨_, _⟩ _ _ same
  simp only [hashTxOut] at same
  rcases uint64_delimited _ _ _ _ same with ⟨sameValue, same⟩
  rcases scriptPublicKey_delimited _ _ _ _ same with ⟨sameKey, same⟩
  exact ⟨by rw [sameValue, sameKey], same⟩

/-- Fields of all the inputs, written one after the other. -/
theorem inputFields_eq {write : α → List UInt8} (delimited : SelfDelimiting write)
    (written : ∀ item, write item ≠ []) {field : TransactionInput → α}
    {inputs inputs' : List TransactionInput}
    (same : (inputs.flatMap fun txIn => write (field txIn)) = inputs'.flatMap fun txIn => write
    (field txIn)) : inputs.map field = inputs'.map field := by
  apply delimited.flatMap_injective written
  simpa only [flatMap_map] using same

/-! ## The fields a hash type commits to -/

inductive CommittedOutputs where
  | nothing
  | single (output : Option DomainTransactionOutput)
  | all (outputs : List DomainTransactionOutput)
deriving DecidableEq

/-- A field that is not committed to is `none`. -/
@[ext]
structure Committed where
  hashType : SigHashType
  version : UInt16
  previousOutpoints : Option (List DomainOutpoint)
  sequences : Option (List UInt64)
  sigOpCounts : Option (List UInt8)
  spentOutpoint : DomainOutpoint
  scriptPublicKey : ScriptPublicKey
  amount : UInt64
  sequence : UInt64
  sigOpCount : UInt8
  outputs : CommittedOutputs
  lockTime : UInt64
  subnetworkID : DomainSubnetworkID
  gas : UInt64
  payload : Option (List UInt8)
deriving DecidableEq

def committed (tx : Transaction) (txIn : TransactionInput)
    (utxoEntry : UTXOEntry) (inputIndex : Nat) (hashType : SigHashType) : Committed where
  hashType := hashType
  version := tx.version
  previousOutpoints :=
    if hashType.isSigHashAnyOneCanPay then none
    else some (tx.inputs.map TransactionInput.previousOutpoint)
  sequences :=
    if hashType.isSigHashSingle || hashType.isSigHashAnyOneCanPay ||
      hashType.isSigHashNone then none
    else some (tx.inputs.map TransactionInput.sequence)
  sigOpCounts :=
    if hashType.isSigHashAnyOneCanPay then none
    else some (tx.inputs.map TransactionInput.sigOpCount)
  spentOutpoint := txIn.previousOutpoint
  scriptPublicKey := utxoEntry.scriptPublicKey
  amount := utxoEntry.amount
  sequence := txIn.sequence
  sigOpCount := txIn.sigOpCount
  outputs :=
    if hashType.isSigHashNone then .nothing
    else if hashType.isSigHashSingle then .single tx.outputs[inputIndex]?
    else .all tx.outputs
  lockTime := tx.lockTime
  subnetworkID := tx.subnetworkID
  gas := tx.gas
  payload :=
    if tx.subnetworkID = subnetworkIDNative then none else some tx.payload

/-- The strings that the transaction signing writer is given for a signature. -/
def written (writers : HashWriters) (tx : Transaction) (txIn : TransactionInput)
    (utxoEntry : UTXOEntry) (inputIndex : Nat) (hashType : SigHashType) : List (List UInt8) :=
  [hashedBytes writers tx txIn utxoEntry inputIndex hashType,
    previousOutputsBytes tx, sequencesBytes tx, sigOpCountsBytes tx,
    outputsBytes tx, lengthPrefixed tx.payload] ++ tx.outputs[inputIndex]?.toList.map hashTxOut

/--
The writers do not collide on the strings, hash none of them to the zero hash,
and the schemes are separated on their hashes.
-/
structure CollisionFree (writers : HashWriters) (strings : List (List UInt8)) : Prop where
  injective : ∀ first ∈ strings, ∀ second ∈ strings,
    writers.transactionSigning first = writers.transactionSigning second → first = second
  nonzero : ∀ bytes ∈ strings, writers.transactionSigning bytes ≠ zeroHash
  separated : ∀ scheme scheme' : Scheme, scheme ≠ scheme' → ∀ first ∈ strings, ∀ second ∈ strings,
    schemeHash writers scheme (writers.transactionSigning first) ≠ schemeHash writers scheme'
    (writers.transactionSigning second)

section Equal

variable {tx' : Transaction} {txIn txIn' : TransactionInput} {utxoEntry utxoEntry' : UTXOEntry}
  {inputIndex' : Nat} {hashType' : SigHashType} {strings : List (List UInt8)}

/-- Equal bytes have equal fields and equal hashes of the lists of fields. -/
theorem fields_of_signatureBytes {hashes hashes' : FieldHashes}
    (same : signatureBytes tx txIn utxoEntry hashType hashes = signatureBytes tx' txIn' utxoEntry'
    hashType' hashes') : hashType = hashType' ∧ hashes = hashes' ∧ tx.version = tx'.version ∧
    txIn.previousOutpoint = txIn'.previousOutpoint ∧ utxoEntry.scriptPublicKey =
    utxoEntry'.scriptPublicKey ∧ utxoEntry.amount = utxoEntry'.amount ∧
    txIn.sequence = txIn'.sequence ∧ txIn.sigOpCount = txIn'.sigOpCount ∧
    tx.lockTime = tx'.lockTime ∧ tx.subnetworkID = tx'.subnetworkID ∧ tx.gas = tx'.gas := by
  rcases uint16_delimited _ _ _ _ same with ⟨version, same⟩
  rcases hash_delimited _ _ _ _ same with ⟨previousOutputs, same⟩
  rcases hash_delimited _ _ _ _ same with ⟨sequences, same⟩
  rcases hash_delimited _ _ _ _ same with ⟨sigOpCounts, same⟩
  rcases hashOutpoint_delimited _ _ _ _ same with ⟨point, same⟩
  rcases scriptPublicKey_delimited _ _ _ _ same with ⟨script, same⟩
  rcases uint64_delimited _ _ _ _ same with ⟨amount, same⟩
  rcases uint64_delimited _ _ _ _ same with ⟨sequence, same⟩
  rcases uint8_delimited _ _ _ _ same with ⟨sigOpCount, same⟩
  rcases hash_delimited _ _ _ _ same with ⟨outputs, same⟩
  rcases uint64_delimited _ _ _ _ same with ⟨lockTime, same⟩
  rcases subnetworkID_delimited _ _ _ _ same with ⟨subnetworkID, same⟩
  rcases uint64_delimited _ _ _ _ same with ⟨gas, same⟩
  rcases hash_delimited _ _ _ _ same with ⟨payload, same⟩
  have sameType := uint8_delimited.injective same
  refine ⟨sameType, ?_, version, point, script, amount, sequence,
    sigOpCount, lockTime, subnetworkID, gas⟩
  cases hashes
  simp only at previousOutputs sequences sigOpCounts outputs payload
  rw [previousOutputs, sequences, sigOpCounts, outputs, payload]

theorem encode_ne_nil {width value : Nat} : encode (width + 1) value ≠ [] := cons_ne_nil _ _

/-- What a hash that may be left out stands for. -/
theorem committedList_eq {leftOut : Prop} [Decidable leftOut] {bytes' : List UInt8}
    {fields fields' : α} (free : CollisionFree writers strings) (mem : bytes ∈ strings)
    (member' : bytes' ∈ strings) (decodes : bytes = bytes' → fields = fields')
    (same : (if leftOut then zeroHash else writers.transactionSigning bytes) =
      if leftOut then zeroHash else writers.transactionSigning bytes') :
    (if leftOut then none else some fields) =
      if leftOut then none else some fields' := by
  split_ifs at same ⊢
  · rfl
  · rw [decodes (free.injective bytes mem bytes' member' same)]

variable (free : CollisionFree writers strings)
  (known : ∀ bytes ∈ written writers tx txIn utxoEntry inputIndex hashType, bytes ∈ strings)
  (known' : ∀ bytes ∈ written writers tx' txIn' utxoEntry' inputIndex' hashType', bytes ∈ strings)

include free known known'

/-- The hashes of two lists of fields are equal only if the lists are. -/
theorem committedOutputs_eq (sameType : hashType = hashType')
    (same : outputsHash writers tx inputIndex hashType = outputsHash writers tx' inputIndex'
    hashType') : (committed tx txIn utxoEntry inputIndex hashType).outputs =
    (committed tx' txIn' utxoEntry' inputIndex' hashType').outputs := by
  subst sameType
  simp only [committed]
  simp only [outputsHash] at same
  by_cases isNone : hashType.isSigHashNone = true
  · rw [if_pos isNone, if_pos isNone]
  rw [if_neg isNone, if_neg isNone] at same ⊢
  by_cases isSingle : hashType.isSigHashSingle = true
  · rw [if_pos isSingle, if_pos isSingle] at same ⊢
    have mem : ∀ txOut, tx.outputs[inputIndex]? = some txOut → hashTxOut txOut ∈ strings := by
      intro txOut found
      apply known
      simp [written, found]
    have member' : ∀ txOut, tx'.outputs[inputIndex']? = some txOut → hashTxOut txOut ∈ strings := by
      intro txOut found
      apply known'
      simp [written, found]
    cases found : tx.outputs[inputIndex]? with
    | none =>
      cases found' : tx'.outputs[inputIndex']? with
      | none => rfl
      | some txOut' =>
        rw [found, found'] at same
        exact absurd same.symm (free.nonzero _ (member' txOut' found'))
    | some txOut =>
      cases found' : tx'.outputs[inputIndex']? with
      | none =>
        rw [found, found'] at same
        exact absurd same (free.nonzero _ (mem txOut found))
      | some txOut' =>
        rw [found, found'] at same
        have sameBytes := free.injective _ (mem txOut found) _ (member' txOut' found') same
        rw [hashTxOut_delimited.injective sameBytes]
  · rw [if_neg isSingle, if_neg isSingle] at same ⊢
    have sameBytes := free.injective _ (known (outputsBytes tx) (by simp [written])) _
      (known' (outputsBytes tx') (by simp [written])) same
    rw [hashTxOut_delimited.flatMap_injective
      (fun _ => append_ne_nil_of_left_ne_nil encode_ne_nil _) sameBytes]

/-- Equal Schnorr hashes commit to equal fields. -/
theorem committed_eq (same : writers.transactionSigning
        (hashedBytes writers tx txIn utxoEntry inputIndex hashType) = writers.transactionSigning
        (hashedBytes writers tx' txIn' utxoEntry' inputIndex' hashType')) :
    committed tx txIn utxoEntry inputIndex hashType =
      committed tx' txIn' utxoEntry' inputIndex' hashType' := by
  have sameBytes := free.injective _ (known _ (.head _)) _ (known' _ (.head _)) same
  rcases fields_of_signatureBytes sameBytes with ⟨sameType, sameHashes,
    version, point, script, amount, sequence, sigOpCount, lockTime, subnetworkID, gas⟩
  have outputs := committedOutputs_eq free known known' sameType
    (congrArg FieldHashes.outputs sameHashes)
  have previous := congrArg FieldHashes.previousOutputs sameHashes
  have sequences := congrArg FieldHashes.sequences sameHashes
  have sigOpCounts := congrArg FieldHashes.sigOpCounts sameHashes
  have payload : payloadHash writers tx = payloadHash writers tx' :=
    congrArg FieldHashes.payload sameHashes
  subst sameType
  ext1
  · rfl
  · exact version
  · apply committedList_eq free (known (previousOutputsBytes tx) (by simp [written]))
      (known' (previousOutputsBytes tx') (by simp [written])) (inputFields_eq hashOutpoint_delimited
        fun _ => append_ne_nil_of_right_ne_nil _ encode_ne_nil) previous
  · apply committedList_eq free (known (sequencesBytes tx) (by simp [written]))
      (known' (sequencesBytes tx') (by simp [written]))
      (inputFields_eq uint64_delimited fun _ => encode_ne_nil) sequences
  · apply committedList_eq free (known (sigOpCountsBytes tx) (by simp [written]))
      (known' (sigOpCountsBytes tx') (by simp [written]))
      (inputFields_eq uint8_delimited fun _ => encode_ne_nil) sigOpCounts
  · exact point
  · exact script
  · exact amount
  · exact sequence
  · exact sigOpCount
  · exact outputs
  · exact lockTime
  · exact subnetworkID
  · exact gas
  · change (if tx.subnetworkID = _ then none else some tx.payload) =
      if tx'.subnetworkID = _ then none else some tx'.payload
    rw [payloadHash, subnetworkID] at payload
    rw [subnetworkID]
    refine committedList_eq free (known (lengthPrefixed tx.payload) (by simp [written]))
      (known' (lengthPrefixed tx'.payload) (by simp [written])) ?_ payload
    intro sameBytes
    have sameString : lengthPrefixed tx.payload ++ [] = lengthPrefixed tx'.payload ++ [] := by
      rw [sameBytes]
    exact (lengthPrefixed_append_inj (lt_trans tx.payload_lt (by decide))
      (lt_trans tx'.payload_lt (by decide)) sameString).1

end Equal

/-! ## Calls on a transaction -/

/-- One call: its scheme, input index and hash type. -/
structure Call where
  scheme : Scheme
  inputIndex : Nat
  hashType : SigHashType

/-- What a call returns and what it leaves in the reused values. -/
def call (writers : HashWriters) (tx : Transaction) (request : Call)
    (reused : SighashReusedValues) : Except SigHashFailure DomainHash × SighashReusedValues :=
  outcome (calculateSignatureHashOf writers tx request.scheme
    request.inputIndex request.hashType) reused

/-- Values that calls on the transaction can leave, fresh or precomputed. -/
inductive Left (writers : HashWriters) (tx : Transaction) : SighashReusedValues → Prop where
  | fresh : Left writers tx {}
  | precomputed : Left writers tx (precomputeSighashReusedValues writers tx)
  | called {reused : SighashReusedValues} (left : Left writers tx reused)
      (request : Call) : Left writers tx (call writers tx request reused).2

variable {reused : SighashReusedValues}

theorem call_returns (ask : Call) (reusable : Reusable writers tx reused) :
    (call writers tx ask reused).1 = signatureHash writers tx ask.scheme ask.inputIndex
    ask.hashType ∧ Reusable writers tx (call writers tx ask reused).2 :=
  hashOf_returns ask.scheme reused reusable

theorem Left.reusable (left : Left writers tx reused) : Reusable writers tx reused := by
  induction left with
  | fresh => exact reusable_fresh writers tx
  | precomputed => exact reusable_precompute writers tx
  | called left ask ih => exact (call_returns ask ih).2

/-- The input that a call is about, with its UTXO entry. -/
def spent (tx : Transaction) (request : Call) : Option (TransactionInput × UTXOEntry) :=
  tx.inputs[request.inputIndex]?.bind fun txIn =>
    txIn.utxoEntry.map fun utxoEntry => (txIn, utxoEntry)

/-- The strings that are hashed for a call. -/
def Call.strings (writers : HashWriters) (tx : Transaction) (request : Call) : List (List UInt8) :=
  match spent tx request with
  | none => []
  | some (txIn, utxoEntry) => written writers tx txIn utxoEntry request.inputIndex request.hashType

/-- The fields that the hash of a call commits to. -/
def Call.committed (tx : Transaction) (request : Call) : Option Committed :=
  (spent tx request).map fun (txIn, utxoEntry) =>
    Commitments.committed tx txIn utxoEntry request.inputIndex request.hashType

variable {ask : Call}

/-- A hash is made from the bytes of an input with its UTXO entry. -/
theorem spent_of_signatureHash {scheme : Scheme} {hash : DomainHash}
    (isOk : signatureHash writers tx scheme ask.inputIndex ask.hashType = .ok hash) :
    ∃ txIn utxoEntry, spent tx ask = some (txIn, utxoEntry) ∧
    hash = schemeHash writers scheme (writers.transactionSigning
    (hashedBytes writers tx txIn utxoEntry ask.inputIndex ask.hashType)) := by
  rw [signatureHash, schnorrHash] at isOk
  split_ifs at isOk with standard
  · cases isOk
  cases found : tx.inputs[ask.inputIndex]? with
  | none =>
    rw [found] at isOk
    cases isOk
  | some txIn =>
    rw [found] at isOk
    cases utxo : txIn.utxoEntry with
    | none =>
      simp only [utxo] at isOk
      cases isOk
    | some utxoEntry =>
      simp only [utxo] at isOk
      cases isOk
      refine ⟨txIn, utxoEntry, ?_, rfl⟩
      simp [spent, found, utxo]

/-- A hash is made from one of the strings of its call. -/
theorem string_of_spent {txIn : TransactionInput}
    {utxoEntry : UTXOEntry} (isSpent : spent tx ask = some (txIn, utxoEntry)) :
    ask.strings writers tx = written writers tx txIn utxoEntry ask.inputIndex ask.hashType := by
  rw [Call.strings, isSpent]

/--
Signature hashes bind what they commit to, hashes of different schemes differ,
and earlier calls on the transaction do not change a result.
-/
theorem signatureHash_binds (writers : HashWriters) (tx tx' : Transaction)
    (request request' : Call) (reused reused' : SighashReusedValues)
    (left : Left writers tx reused) (left' : Left writers tx' reused') (free : CollisionFree writers
      (request.strings writers tx ++ request'.strings writers tx')) :
    (call writers tx request reused).1 = (call writers tx request {}).1 ∧
      ∀ hash hash', (call writers tx request reused).1 = .ok hash →
        (call writers tx' request' reused').1 = .ok hash' →
        (request.scheme ≠ request'.scheme → hash ≠ hash') ∧
        (request.scheme = .schnorr → request'.scheme = .schnorr → hash = hash' →
            request.hashType = request'.hashType ∧ (request.committed tx).isSome = true ∧
              request.committed tx = request'.committed tx') := by
  have result := (call_returns request left.reusable).1
  have result' := (call_returns request' left'.reusable).1
  refine ⟨result.trans (call_returns request (reusable_fresh writers tx)).1.symm, ?_⟩
  intro hash hash' isOk success'
  rw [result] at isOk
  rw [result'] at success'
  rcases spent_of_signatureHash isOk with ⟨txIn, utxoEntry, isSpent, isHash⟩
  rcases spent_of_signatureHash success' with ⟨txIn', utxoEntry', isSpent', isHash'⟩
  generalize isStrings : request.strings writers tx ++
    request'.strings writers tx' = strings at free
  rw [string_of_spent isSpent, string_of_spent isSpent'] at isStrings
  have known : ∀ bytes ∈ written writers tx txIn utxoEntry request.inputIndex request.hashType,
      bytes ∈ strings := fun _ mem => isStrings ▸ mem_append_left _ mem
  have known' : ∀ bytes ∈ written writers tx' txIn' utxoEntry' request'.inputIndex
      request'.hashType, bytes ∈ strings := fun _ mem => isStrings ▸ mem_append_right _ mem
  constructor
  · intro ne
    rw [isHash, isHash']
    exact free.separated _ _ ne _ (known _ (.head _)) _ (known' _ (.head _))
  · intro isSchnorr isSchnorr' same
    rw [isHash, isHash', isSchnorr, isSchnorr'] at same
    have sameFields := committed_eq free known known' same
    refine ⟨congrArg Committed.hashType sameFields, ?_, ?_⟩
    · rw [Call.committed, isSpent]
      rfl
    · rw [Call.committed, Call.committed, isSpent, isSpent']
      exact congrArg some sameFields

/-! ## Transactions with concrete hashes -/

/-- A tagged remainder of the number that the bytes denote. -/
def taggedHash (tag : UInt8) (bytes : List UInt8) : DomainHash where
  hashArray := tag :: encode 31 (decode bytes % (2 ^ 248 - 237))
  length_eq := by rw [length_cons, length_encode]

def taggedWriters : HashWriters where
  transactionSigning := taggedHash 1
  transactionSigningECDSA := taggedHash 2
  transactionSigningMLDSA44 := taggedHash 3

def scriptOf (script : List UInt8) (fits : script.length < 2 ^ 63) :
    ScriptPublicKey :=
  ⟨script, 0, fits⟩

/-- One input that spends a coin of 5, one output of the value. -/
def payment (value : UInt64) (payload : List UInt8)
    (fits : payload.length < 2 ^ 63) : Transaction where
  version := 0
  inputs := [⟨⟨.filled 7, 0⟩, [], 3, 1, some ⟨5, scriptOf [0x51] (by decide), 10, false⟩⟩]
  outputs := [⟨value, scriptOf [0x51] (by decide)⟩]
  lockTime := 0
  subnetworkID := subnetworkIDNative
  gas := 0
  payload := payload
  payload_lt := fits

def signNone : Call := ⟨.schnorr, 0, SigHashType.none⟩

def tagOf : Scheme → UInt8
  | .schnorr => 1
  | .ecdsa => 2
  | .mldsa44 => 3

theorem head_schemeHash (scheme : Scheme) (bytes : List UInt8) : (schemeHash taggedWriters scheme
      (taggedWriters.transactionSigning bytes)).hashArray.head? = some (tagOf scheme) := by
  cases scheme with
  | schnorr => rfl
  | ecdsa => rfl
  | mldsa44 => rfl

/-- Payments of different values, signed without their outputs. -/
theorem payments_collisionFree : CollisionFree taggedWriters
      (signNone.strings taggedWriters (payment 4 [] (by decide)) ++ signNone.strings taggedWriters
      (payment 3 [] (by decide))) where
  injective := by decide +kernel
  nonzero := by decide +kernel
  separated := by
    intro scheme scheme' ne first _ second _ same
    have tags := congrArg (fun hash => hash.hashArray.head?) same
    simp only [head_schemeHash] at tags
    revert tags ne
    cases scheme <;> cases scheme' <;> decide

/-- Hashes that leave the outputs out are equal, and so is what they bind. -/
theorem signatureHash_binds_payments :
    (call taggedWriters (payment 4 [] (by decide)) signNone {}).1 =
        (call taggedWriters (payment 3 [] (by decide)) signNone {}).1 ∧
      signNone.committed (payment 4 [] (by decide)) =
        signNone.committed (payment 3 [] (by decide)) := by
  have isOk : (call taggedWriters (payment 4 [] (by decide)) signNone
      {}).1.toOption.isSome = true := by
    decide +kernel
  have same : (call taggedWriters (payment 4 [] (by decide)) signNone {}).1 =
      (call taggedWriters (payment 3 [] (by decide)) signNone {}).1 := by
    decide +kernel
  refine ⟨same, ?_⟩
  have bound := (signatureHash_binds taggedWriters (payment 4 [] (by decide))
    (payment 3 [] (by decide)) signNone signNone {} {} .fresh .fresh payments_collisionFree).2
  cases isHash : (call taggedWriters (payment 4 [] (by decide)) signNone {}).1 with
  | error failure =>
    rw [isHash] at isOk
    cases isOk
  | ok hash => exact ((bound hash hash isHash (same ▸ isHash)).2 rfl rfl rfl).2.2

/--
The payload of a native transaction is not bound: two that differ in it only
have equal signature hashes, whatever the writers are.
-/
theorem native_payload_not_bound :
    (payment 4 [] (by decide)).payload ≠ (payment 4 [1] (by decide)).payload ∧
      ∀ writers : HashWriters, ∃ hash, (call writers (payment 4 [] (by decide))
            ⟨.schnorr, 0, SigHashType.all⟩ {}).1 = .ok hash ∧
          (call writers (payment 4 [1] (by decide))
            ⟨.schnorr, 0, SigHashType.all⟩ {}).1 = .ok hash := by
  refine ⟨by decide, fun writers => ⟨_, rfl, rfl⟩⟩

end Htnd.ConsensusHashing.Commitments
