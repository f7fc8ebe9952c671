import Htnd.Txscript.SigOpCounts

/-!
# Signature operations that an input commits to

`validateTransactionSigOpCounts` of
`transactionvalidator/transaction_in_context.go`.  The count that an input
commits to is the count of its two scripts, so it bounds what is verified when
they are run.
-/

namespace Htnd.TransactionValidator.CommittedSigOps

open Utxo.Entry Consensus.Transactions Txscript.Script Txscript.Signatures
open Txscript.Execution Txscript.Engines Txscript.SigOpCounts

inductive SigOpFailure where
  | wrongSigOpCount (input specified actual : Nat)
  | panicked
deriving DecidableEq

/-- The loop over the inputs, of which the first has the given index. -/
def validateSigOpCountsFrom (flags : ScriptFlags) :
    Nat → List TransactionInput → Except SigOpFailure Unit
  | _, [] => .ok ()
  | i, input :: inputs =>
    match input.utxoEntry with
    | none => .error .panicked
    | some utxoEntry =>
      let sigOpCount := getPreciseSigOpCountWithFlags
        input.signatureScript utxoEntry.scriptPublicKey flags
      if sigOpCount ≠ input.sigOpCount.toNat then
        .error (.wrongSigOpCount i input.sigOpCount.toNat sigOpCount)
      else validateSigOpCountsFrom flags (i + 1) inputs

def validateTransactionSigOpCounts (tx : Transaction)
    (flags : ScriptFlags) : Except SigOpFailure Unit :=
  validateSigOpCountsFrom flags 0 tx.inputs

theorem sigOpCount_of_validated {flags : ScriptFlags} {i place : Nat}
    {inputs : List TransactionInput} {input : TransactionInput} {coin : UTXOEntry}
    (validated : validateSigOpCountsFrom flags i inputs = .ok ())
    (isInput : inputs[place]? = some input) (isEntry : input.utxoEntry = some coin) :
    getPreciseSigOpCountWithFlags input.signatureScript coin.scriptPublicKey flags =
    input.sigOpCount.toNat := by
  induction inputs generalizing i place with
  | nil => cases isInput
  | cons first inputs ih =>
    rw [validateSigOpCountsFrom] at validated
    split at validated
    · cases validated
    next entry isFirst =>
      dsimp only at validated
      split_ifs at validated with isRight
      cases place with
      | zero =>
        cases isInput
        rw [isEntry] at isFirst
        cases isFirst
        exact not_not.mp isRight
      | succ place => exact ih validated isInput

/--
Running the scripts of an input verifies no more signatures than are counted in
them, whatever the libraries answer and however the run ends; and no more than
the input commits to, once the counts of its transaction are validated.
-/
theorem verifications_le_sigOpCount (primitives : Primitives) (vm : Engine)
    (scriptPubKey : ScriptPublicKey) (tx : Transaction) (txIdx : Int)
    (flags : ScriptFlags) (checks : Checks) (rounds : Nat) (input : TransactionInput)
    (isInput : tx.inputs[txIdx.toNat]? = some input) :
    let verified := (initAndExecute primitives (reset vm) scriptPubKey tx txIdx
      flags checks rounds).2.verified
    verified ≤ checks.verified + getPreciseSigOpCountWithFlags input.signatureScript scriptPubKey
        flags ∧ ∀ utxoEntry, input.utxoEntry = some utxoEntry → utxoEntry.scriptPublicKey =
        scriptPubKey → validateTransactionSigOpCounts tx flags = .ok () →
        verified ≤ checks.verified + input.sigOpCount.toNat := by
  intro verified
  have bounded : verified ≤ _ := initAndExecute_verifies primitives vm checks rounds isInput
  refine ⟨bounded, ?_⟩
  rintro utxoEntry isEntry rfl validated
  rwa [sigOpCount_of_validated validated isInput isEntry] at bounded

/-- The redeem script of one key and one signature. -/
def redeemScript : List UInt8 := [0x51, 0x20] ++ List.replicate 32 6 ++ [0x51, 0xae]

/-- The hash of a redeem script, which is the zero hash here. -/
def scriptHashScript : ScriptPublicKey :=
  ⟨[0xaa, 0x20] ++ List.replicate 32 0 ++ [0x87], 0, by decide⟩

def redeeming : Transaction :=
  spending ((0x41 :: List.replicate 64 5) ++ [0x01, 0x24] ++ redeemScript) 0 0
    (some ⟨1, scriptHashScript, 0, false⟩)

/-- One verification, as counted and as the input commits to. -/
theorem verifications_le_sigOpCount_redeemScript :
    let verified := (initAndExecute acceptingPrimitives (reset zeroEngine)
      scriptHashScript redeeming 0 0 freshChecks 20).2.verified
    verified = 1 ∧ validateTransactionSigOpCounts redeeming 0 = .ok () ∧ verified ≤ 0 + 1 := by
  have validated : validateTransactionSigOpCounts redeeming 0 = .ok () := by rfl
  have bounded := verifications_le_sigOpCount acceptingPrimitives zeroEngine
    scriptHashScript redeeming 0 0 freshChecks 20 _ rfl
  exact ⟨by decide +kernel, validated, bounded.2 _ rfl rfl validated⟩

end Htnd.TransactionValidator.CommittedSigOps
