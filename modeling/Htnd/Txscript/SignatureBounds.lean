import Htnd.Txscript.HandlerBounds

/-!
# Signature opcodes stay in bounds

A signature opcode reads the spent output of the current input, whose entry must
be there; then it does not panic, and it leaves one item at most above what was
on the stacks.  The loop over several signatures never reads past either list.
-/

namespace Htnd.Txscript.SignatureBounds

open Lib.Calls Lib.Fallible Utxo.Entry Consensus.Transactions
open ConsensusHashing.SignatureHash Script Stacks Handlers Signatures
open Bounds HandlerBounds

/-! ## Calls on the machine and on the checks -/

def SessionBounded (base room : Nat) (vm : Session) : Prop := Bounded base room vm.machine

variable {base growth : Nat} {α : Type} {value : α → Prop}

theorem machine_grows {call : MachineCall α} (grows : Grows (Bounded base) growth call value) :
    Grows (SessionBounded base) growth (onMachine call) value :=
  fun room fits => .zoom fun _ bound => (grows room fits).of_state bound

/-- A call on the checks that fails with an error only. -/
def Checked (call : ChecksCall α) : Prop :=
  Yields (fun _ => True) call (fun _ _ => True) fun failure _ => IsError failure

theorem onChecks_grows {call : ChecksCall α} (checked : Checked call) :
    Grows (SessionBounded base) 0 (onChecks call) fun _ => True :=
  fun _ _ => .zoom fun _ bound => (checked.of_state trivial).imp (fun _ => id)
    (fun _ _ _ => ⟨trivial, bound⟩) fun _ _ => id

theorem pushResult_grows (valid : Bool) :
    Grows (SessionBounded base) 1 (pushResult valid) fun _ => True :=
  machine_grows (data_grows (pushBool_grows valid))

theorem require_grows (holds : Bool) (code : ErrorCode) :
    Grows (SessionBounded base) 0 (require holds code) fun _ => True :=
  guard_grows.imp fun _ _ => trivial

theorem pop_sessionGrows : Grows (SessionBounded base) 0 (onMachine (onData popByteArray)) fun _ =>
    True :=
  (machine_grows (data_grows popBytes_grows)).imp fun _ _ => trivial

/-- A signature that is not empty has a last byte. -/
theorem splitSignature_grows {fullSigBytes : List UInt8} (filled : ¬ fullSigBytes.length < 1) :
    Grows (SessionBounded base) 0 (compute (splitSignature fullSigBytes)) fun _ => True := by
  have hasLast : fullSigBytes.length - 1 < fullSigBytes.length := by omega
  refine .compute (fun _ _ => trivial) fun _ isFailure => ?_
  rw [splitSignature, ok_bind (index_ok hasLast), slice,
    if_pos ⟨Nat.zero_le _, Nat.sub_le _ _⟩] at isFailure
  cases isFailure

/-! ## One signature -/

theorem checkSignature_checked (scheme : CurveScheme) (evicted : Nat → Nat) (hash : DomainHash)
    (sig pubKey : List UInt8) : Checked (scheme.checkSignature evicted hash sig pubKey) := by
  refine .get fun _ _ => ?_
  split
  · exact fun _ _ => trivial
  · split_ifs
    · exact fun _ _ => trivial
    · exact fun _ _ => trivial
    · exact fun _ _ => trivial

theorem mldsa44Verify_checked (prims : Primitives) (sigHash : DomainHash)
    (pkBytes sigBytes : List UInt8) : Checked (mldsa44Verify prims sigHash pkBytes sigBytes) := by
  refine .after_modify fun _ _ => .get fun _ _ => ?_
  split
  · split
    · exact fun _ _ => trivial
    · exact fun _ _ => trivial
  dsimp only
  split
  · exact fun _ _ => trivial
  split
  · exact fun _ _ => trivial
  · split_ifs
    · exact fun _ _ => trivial
    · exact fun _ _ => trivial
    · exact fun _ _ => trivial

/-- The current input has the entry of the output it spends. -/
def HasEntry (settings : Settings) : Prop :=
  ∃ input entry, settings.tx.inputs[settings.txIdx]? = some input ∧ input.utxoEntry = some entry

theorem HasEntry.inRange {settings : Settings} (spends : HasEntry settings) :
    settings.txIdx < settings.tx.inputs.length := by
  rcases spends with ⟨_, _, isInput, _⟩
  exact (List.getElem?_eq_some_iff.mp isInput).1

/-- A signature hash that does not panic for the current input. -/
def Hashes (settings : Settings) (calculate : Transaction → Nat → SigHashType →
      ExceptT SigHashFailure (StateM SighashReusedValues) DomainHash) : Prop :=
  ∀ hashType, Yields (fun _ => True) (calculate settings.tx settings.txIdx hashType)
    (fun _ _ => True) fun failure _ => failure ≠ .panicked

section Spent

variable {settings : Settings} (spends : HasEntry settings)

include spends

variable (writers : HashWriters)

theorem schnorr_hashes : Hashes settings (calculateSignatureHashSchnorr writers) := by
  rcases spends with ⟨_, _, isInput, isEntry⟩
  intro _
  rw [calculateSignatureHashSchnorr, isInput]
  simp only [isEntry]
  split_ifs
  · exact fun _ _ (isPanic : SigHashFailure.notStandard = .panicked) =>
      nomatch isPanic
  · exact fun _ _ => trivial

theorem ecdsa_hashes : Hashes settings (calculateSignatureHashECDSA writers) :=
  fun kind => (schnorr_hashes spends writers kind).bind fun _ => Yields.pure fun _ => id

theorem mldsa44_hashes : Hashes settings (calculateSignatureHashMLDSA44 writers) :=
  fun kind => (schnorr_hashes spends writers kind).bind fun _ => Yields.pure fun _ => id

end Spent

section Hashing

variable {settings : Settings} {calculate : Transaction → Nat → SigHashType →
    ExceptT SigHashFailure (StateM SighashReusedValues) DomainHash}

theorem signatureHash_checked (hashes : Hashes settings calculate) (kind : SigHashType) :
    Checked (signatureHash settings kind calculate) := by
  refine .get fun checks _ => ?_
  have meets := hashes kind checks.sigHashReusedValues trivial
  generalize outcome (calculate settings.tx settings.txIdx kind)
    checks.sigHashReusedValues = result at meets ⊢
  rcases result with ⟨fails | _, _⟩
  · cases fails with
    | notStandard => exact fun _ _ => trivial
    | panicked => exact absurd rfl meets
  · exact fun _ _ => trivial

theorem signatureHash_grows (hashes : Hashes settings calculate) (kind : SigHashType) :
    Grows (SessionBounded base) 0 (onChecks (signatureHash settings kind calculate)) fun _ =>
    True :=
  onChecks_grows (signatureHash_checked hashes kind)

end Hashing

section Handlers

variable {prims : Primitives} {settings : Settings} {scheme : CurveScheme}

theorem checkSig_grows (hashes : Hashes settings scheme.calculateSignatureHash) :
    Grows (SessionBounded base) 1 (checkSig prims scheme settings) fun _ => True := by
  refine pop_sessionGrows.andThen fun _ _ => ?_
  refine pop_sessionGrows.andThen fun _ _ => ?_
  split_ifs with empty
  · exact pushResult_grows false
  refine (splitSignature_grows empty).andThen fun split _ => ?_
  refine (require_grows _ _).andThen fun _ _ => ?_
  refine (require_grows _ _).andThen fun _ _ => ?_
  refine (require_grows _ _).andThen fun _ _ => ?_
  refine (signatureHash_grows hashes split.1).andThen fun sigHash _ => ?_
  cases sigHash with
  | none => exact pushResult_grows false
  | some sigHash =>
    dsimp only
    split
    · refine (onChecks_grows (checkSignature_checked scheme _ _ _ _)).andThen fun valid _ => ?_
      refine (require_grows _ _).andThen fun _ _ => ?_
      exact pushResult_grows valid
    · exact pushResult_grows false

theorem opcodeCheckSigMLDSA44_grows (hashes : Hashes settings
      (calculateSignatureHashMLDSA44 prims.writers)) :
    Grows (SessionBounded base) 1 (opcodeCheckSigMLDSA44 prims settings) fun _ => True := by
  rw [opcodeCheckSigMLDSA44]
  by_cases isDisabled : settings.flags &&& scriptEnableMLDSA44 = 0
  · rw [if_pos isDisabled]
    exact .throw (isError_script _)
  rw [if_neg isDisabled]
  refine pop_sessionGrows.andThen fun _ _ => ?_
  refine pop_sessionGrows.andThen fun _ _ => ?_
  split_ifs with empty
  · exact pushResult_grows false
  refine (splitSignature_grows empty).andThen fun split _ => ?_
  refine (require_grows _ _).andThen fun _ _ => ?_
  refine (require_grows _ _).andThen fun _ _ => ?_
  refine (require_grows _ _).andThen fun _ _ => ?_
  refine (signatureHash_grows hashes split.1).andThen fun sigHash _ => ?_
  cases sigHash with
  | none => exact pushResult_grows false
  | some sigHash =>
    refine (onChecks_grows (mldsa44Verify_checked _ _ _ _)).andThen fun valid _ => ?_
    cases valid with
    | none => exact pushResult_grows false
    | some valid =>
      refine (require_grows _ _).andThen fun _ _ => ?_
      exact pushResult_grows true

/-! ## Several signatures -/

theorem popN_grows (count : Nat) : Grows (Bounded base) 0 (popMany count)
      fun items => items.length = count := by
  induction count with
  | zero => exact .pure rfl
  | succ count ih =>
    refine (data_grows popBytes_grows).andThen fun _ _ => ?_
    refine ih.andThen fun items isLength => ?_
    exact .pure (congrArg Nat.succ isLength)

theorem parseSigInfo_grows (sigInfo : ParsedSigInfo) (kind : SigHashType) (sig : List UInt8) :
    Grows (SessionBounded base) 0 (parseSigInfo scheme sigInfo kind sig) fun _ => True := by
  rw [parseSigInfo]
  split_ifs
  · refine (require_grows _ _).andThen fun _ _ => ?_
    refine (require_grows _ _).andThen fun _ _ => ?_
    exact .pure trivial
  · exact .pure trivial

/-- An index into a list that is long enough. -/
theorem index_grows {items : List α} {place : Nat} (inRange : place < items.length) :
    Grows (SessionBounded base) 0 (compute (index items place)) fun item => item =
    items[place] := by
  rw [index_ok inRange]
  exact .pure rfl

/--
The next signature and the next key are in range as long as enough of each
remain.
-/
theorem multiSigLoop_grows (hashes : Hashes settings scheme.calculateSignatureHash)
    (pubKeys : List Element) (total keyIdx sigIdx count : Nat) (sigs : List ParsedSigInfo)
    (keysRemain : keyIdx + total = pubKeys.length + 1)
    (signaturesRemain : sigIdx + count = sigs.length) :
    Grows (SessionBounded base) 0 (multiSigLoop prims scheme settings pubKeys total keyIdx sigIdx
    count sigs) fun _ => True := by
  induction total generalizing keyIdx sigIdx count sigs with
  | zero => exact .pure trivial
  | succ total ih =>
    rw [multiSigLoop]
    by_cases noneLeft : count = 0
    · rw [if_pos noneLeft]
      exact .pure trivial
    rw [if_neg noneLeft]
    by_cases tooFew : total < count
    · rw [if_pos tooFew]
      exact .pure trivial
    rw [if_neg tooFew]
    refine (index_grows (by omega)).andThen fun sigInfo _ => ?_
    refine (index_grows (by omega)).andThen fun pubKey _ => ?_
    have skip : ∀ signatures' : List ParsedSigInfo, signatures'.length = sigs.length →
        Grows (SessionBounded base) 0 (multiSigLoop prims scheme settings pubKeys total (keyIdx + 1)
        sigIdx count signatures') fun _ => True := by
      intro signatures' lengthEq
      refine ih _ _ _ signatures' (by omega) ?_
      rw [lengthEq]
      exact signaturesRemain
    by_cases empty : sigInfo.signature.length = 0
    · rw [if_pos empty]
      exact skip sigs rfl
    rw [if_neg empty]
    refine (splitSignature_grows (by omega)).andThen fun _ _ => ?_
    refine (parseSigInfo_grows _ _ _).andThen fun parsedSig _ => ?_
    cases parsedSig with
    | none => exact skip _ List.length_set
    | some parsedSig =>
      refine (require_grows _ _).andThen fun _ _ => ?_
      cases scheme.curve.deserializePubKey pubKey with
      | none => exact skip _ List.length_set
      | some parsedPubKey =>
        refine (signatureHash_grows hashes _).andThen fun sigHash _ => ?_
        cases sigHash with
        | none => exact .throw ⟨nofun, nofun⟩
        | some sigHash =>
          refine (onChecks_grows (checkSignature_checked _ _ _ _ _)).andThen fun valid _ => ?_
          cases valid with
          | false => exact skip _ List.length_set
          | true =>
            refine ih _ _ _ _ (by omega) ?_
            rw [List.length_set]
            omega

theorem popPubKeyCount_grows : Grows (Bounded base) 0 popPubKeyCount fun _ => True := by
  refine (data_grows popInt_grows).andThen fun numKeys _ => ?_
  by_cases isNegative : int32Of numKeys < 0
  · rw [if_pos isNegative]
    exact .throw (isError_script _)
  rw [if_neg isNegative]
  by_cases tooLarge : maxPubKeysPerMultiSig < int32Of numKeys
  · rw [if_pos tooLarge]
    exact .throw (isError_script _)
  rw [if_neg tooLarge]
  intro _ _ vm bound
  simp only [outcome_bind, outcome_modify, outcome_get]
  by_cases tooMany : maxOpsPerScript < vm.numOps + (int32Of numKeys).toNat
  · rw [if_pos tooMany]
    exact isError_script _
  rw [if_neg tooMany]
  have base_le := bound.base_le
  exact ⟨trivial, { bound with
    base_le := by dsimp only; omega
    numOps_le := Nat.le_of_not_lt tooMany }⟩

theorem popSignatureCount_grows (total : Nat) :
    Grows (Bounded base) 0 (popSignatureCount total) fun _ => True := by
  refine (data_grows popInt_grows).andThen fun numSigs _ => ?_
  dsimp only
  by_cases isNegative : int32Of numSigs < 0
  · rw [if_pos isNegative]
    exact .throw (isError_script _)
  split_ifs
  · exact .throw (isError_script _)
  · exact .pure trivial

theorem checkMultiSig_grows (hashes : Hashes settings scheme.calculateSignatureHash) :
    Grows (SessionBounded base) 1 (checkMultiSig prims scheme settings) fun _ => True := by
  refine (machine_grows popPubKeyCount_grows).andThen fun total _ => ?_
  refine (machine_grows (popN_grows total)).andThen fun pubKeys _ => ?_
  refine (machine_grows (popSignatureCount_grows total)).andThen fun count _ => ?_
  refine (machine_grows (popN_grows count)).andThen fun sigs _ => ?_
  have loop : Grows (SessionBounded base) 0 (multiSigLoop prims scheme settings pubKeys (total + 1)
      0 0 count (sigs.map fun sig => ⟨sig, none, false⟩)) fun _ => True := by
    refine multiSigLoop_grows hashes _ _ _ _ _ _ (by omega) ?_
    rw [List.length_map]
    omega
  refine loop.andThen fun isOk _ => ?_
  refine (require_grows _ _).andThen fun _ _ => ?_
  exact pushResult_grows isOk

end Handlers

end Htnd.Txscript.SignatureBounds
