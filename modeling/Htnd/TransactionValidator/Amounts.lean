import Htnd.Consensus.Transactions
import Htnd.Lib.Fallible

/-!
# Amounts of transactions

The sums of `transactionvalidator/transaction_in_isolation.go` and
`transaction_in_context.go`.  The outputs are summed twice: once with checks,
in isolation, and once without, against the checked sum of the spent entries.
The checks that read no amount are given by their results.
-/

namespace Htnd.TransactionValidator.Amounts

open Lib.Fallible Utxo.Entry Consensus.Transactions

/-- `constants.MaxSompi`: 17.1 billion hoosat. -/
def maxSompi : UInt64 := 17100000000 * 100000000

/-- The errors of the checks, with the data of their messages. -/
inductive AmountFailure where
  | noTxInputs
  | txOutValueZero
  | outputTooHigh (sompi : UInt64)
  | outputsOverflow
  | outputsTooHigh (totalSompi : UInt64)
  | duplicateTxInputs
  | missingTxOut (missingOutpoints : List DomainOutpoint)
  | inputsTooHigh (totalSompiInBefore : UInt64)
  | spendTooHigh (totalSompiIn totalSompiOut : UInt64)
  | otherCheck (message : String)
deriving DecidableEq

/-! ## In isolation -/

def checkTransactionInputCount (tx : Transaction) : Except AmountFailure Unit :=
  if !tx.isCoinBase && tx.inputs.length == 0 then .error .noTxInputs
  else .ok ()

/-- The loop of `checkTransactionAmountRanges`, from a running total on. -/
def checkAmountsFrom : UInt64 → List DomainTransactionOutput → Except AmountFailure Unit
  | _, [] => .ok ()
  | totalSompi, txOut :: rest =>
    let sompi := txOut.value
    if sompi = 0 then .error .txOutValueZero
    else if maxSompi < sompi then .error (.outputTooHigh sompi)
    else
      let newTotalSompi := totalSompi + sompi
      if newTotalSompi < totalSompi then .error .outputsOverflow
      else if maxSompi < newTotalSompi then
        .error (.outputsTooHigh newTotalSompi)
      else checkAmountsFrom newTotalSompi rest

def checkTransactionAmountRanges (tx : Transaction) : Except AmountFailure Unit :=
  checkAmountsFrom 0 tx.outputs

/-- The loop of `checkDuplicateTransactionInputs`, from the known ones on. -/
def checkDuplicatesFrom : List DomainOutpoint → List TransactionInput → Except AmountFailure Unit
  | _, [] => .ok ()
  | existingTxOut, txIn :: rest =>
    if txIn.previousOutpoint ∈ existingTxOut then .error .duplicateTxInputs
    else checkDuplicatesFrom (txIn.previousOutpoint :: existingTxOut) rest

def checkDuplicateTransactionInputs (tx : Transaction) : Except AmountFailure Unit :=
  checkDuplicatesFrom [] tx.inputs

/-- `ValidateTransactionInIsolation`, with the result of its later checks. -/
def validateTransactionInIsolation (later : Except AmountFailure Unit)
    (tx : Transaction) : Except AmountFailure Unit := do
  checkTransactionInputCount tx
  checkTransactionAmountRanges tx
  checkDuplicateTransactionInputs tx
  later

/-! ## In context -/

def checkEntryAmounts (entry : UTXOEntry) (totalSompiInBefore : UInt64) :
    Except AmountFailure UInt64 :=
  let totalSompiInAfter := totalSompiInBefore + entry.amount
  if totalSompiInAfter < totalSompiInBefore ∨ maxSompi < totalSompiInAfter then
    .error (.inputsTooHigh totalSompiInBefore)
  else .ok totalSompiInAfter

/-- The loop of `checkTransactionInputAmounts`. -/
def sumInputs : List TransactionInput → UInt64 → List DomainOutpoint → Except AmountFailure UInt64
  | [], totalSompiIn, missingOutpoints =>
    if 0 < missingOutpoints.length then
      .error (.missingTxOut missingOutpoints)
    else .ok totalSompiIn
  | input :: rest, totalSompiIn, missingOutpoints =>
    match input.utxoEntry with
    | none => sumInputs rest totalSompiIn (missingOutpoints ++ [input.previousOutpoint])
    | some utxoEntry => do
      let totalSompiIn ← checkEntryAmounts utxoEntry totalSompiIn
      sumInputs rest totalSompiIn missingOutpoints

def checkTransactionInputAmounts (tx : Transaction) : Except AmountFailure UInt64 :=
  sumInputs tx.inputs 0 []

def checkTransactionOutputAmounts (tx : Transaction) (totalSompiIn : UInt64) :
    Except AmountFailure UInt64 :=
  let totalSompiOut := tx.outputs.foldl (fun total out => total + out.value) 0
  if totalSompiIn < totalSompiOut then
    .error (.spendTooHigh totalSompiIn totalSompiOut)
  else .ok totalSompiOut

/--
`ValidateTransactionInContextAndPopulateFee`: the fee it stores, if any, and
its error.  The maturity, sequence lock, signature operation and script checks
run side by side; `results` are theirs in the order they arrive.
-/
def validateTransactionInContextAndPopulateFee (results : List (Option AmountFailure))
    (tx : Transaction) : Option UInt64 × Option AmountFailure :=
  let totals := do
    let totalSompiIn ← checkTransactionInputAmounts tx
    let totalSompiOut ← checkTransactionOutputAmounts tx totalSompiIn
    return totalSompiIn - totalSompiOut
  match totals with
  | .error err => (none, some err)
  | .ok fee => (some fee, results.findSome? id)

/-! ## What the loops compute -/

/-- The sum of the outputs over the naturals. -/
def createdSompi (outputs : List DomainTransactionOutput) : Nat := (outputs.map (·.value.toNat)).sum

/-- The sum of the spent entries over the naturals. -/
def spentSompi (inputs : List TransactionInput) : Nat :=
  ((inputs.filterMap (·.utxoEntry)).map (·.amount.toNat)).sum

theorem maxSompi_toNat : maxSompi.toNat = 1710000000000000000 := rfl

theorem createdSompi_cons (output : DomainTransactionOutput) (rest : List DomainTransactionOutput) :
    createdSompi (output :: rest) = output.value.toNat + createdSompi rest :=
  List.sum_cons

/-- Outputs that pass stay within the maximum, with what came before. -/
theorem created_le_of_checked {totalSompi : UInt64} {outputs : List DomainTransactionOutput}
    (checked : checkAmountsFrom totalSompi outputs = .ok ())
    (small : totalSompi.toNat ≤ maxSompi.toNat) :
    totalSompi.toNat + createdSompi outputs ≤ maxSompi.toNat := by
  fun_induction checkAmountsFrom totalSompi outputs with
  | case1 => exact small
  | case2 | case3 | case4 | case5 => cases checked
  | case6 totalSompi output rest sompi nonzero inRange next noWrap within ih =>
    have total : (totalSompi + output.value).toNat + createdSompi rest ≤
      maxSompi.toNat := ih checked (not_lt.mp within)
    have inRange : output.value.toNat ≤ maxSompi.toNat := not_lt.mp inRange
    rw [UInt64.toNat_add] at total
    rw [createdSompi_cons]
    rw [maxSompi_toNat] at small inRange total ⊢
    omega

variable {inputs : List TransactionInput}

theorem nodup_of_checked {old : List DomainOutpoint}
    (checked : checkDuplicatesFrom old inputs = .ok ()) : (inputs.map (·.previousOutpoint)).Nodup ∧
    ∀ input ∈ inputs, input.previousOutpoint ∉ old := by
  fun_induction checkDuplicatesFrom old inputs with
  | case1 => exact ⟨List.nodup_nil, nofun⟩
  | case2 => cases checked
  | case3 old input rest isNew ih =>
    rcases ih checked with ⟨nodup, unknown⟩
    rw [List.map_cons, List.nodup_cons, List.forall_mem_cons]
    refine ⟨⟨fun mem => ?_, nodup⟩, isNew, fun other isIn known =>
      unknown other isIn (.tail _ known)⟩
    rcases List.mem_map.mp mem with ⟨other, isIn, same⟩
    exact unknown other isIn (same ▸ .head old)

/-- The sum of the entries is exact, and no entry was missing. -/
theorem sumInputs_ok {sum result : UInt64} {missing : List DomainOutpoint}
    (isOk : sumInputs inputs sum missing = .ok result) (small : sum.toNat ≤ maxSompi.toNat) :
    missing = [] ∧ (∀ input ∈ inputs, input.utxoEntry.isSome) ∧
    result.toNat = sum.toNat + spentSompi inputs ∧ result.toNat ≤ maxSompi.toNat := by
  fun_induction sumInputs inputs sum missing with
  | case1 => cases isOk
  | case2 sum missing noneMissing =>
    cases isOk
    exact ⟨List.length_eq_zero_iff.mp (Nat.eq_zero_of_not_pos noneMissing), nofun, rfl, small⟩
  | case3 input rest sum missing isNone ih => exact absurd (ih isOk small).1 (by simp)
  | case4 input rest sum missing entry isEntry ih =>
    rcases ok_of_bind isOk with ⟨_, checked, isOk⟩
    rw [checkEntryAmounts] at checked
    split_ifs at checked with tooHigh
    cases checked
    rw [UInt64.lt_iff_toNat_lt, UInt64.lt_iff_toNat_lt] at tooHigh
    rcases ih _ isOk (by omega) with ⟨noneMissing, resolved, exact, atMost⟩
    have bound := entry.amount.toNat_lt
    rw [UInt64.toNat_add] at tooHigh exact
    have spent : spentSompi (input :: rest) = entry.amount.toNat + spentSompi rest := by
      simp [spentSompi, isEntry]
    refine ⟨noneMissing, List.forall_mem_cons.mpr ⟨by simp [isEntry], resolved⟩, ?_, atMost⟩
    omega

/-- The unchecked sum is exact while it fits. -/
theorem foldl_value_toNat (outputs : List DomainTransactionOutput) (total : UInt64)
    (fits : total.toNat + createdSompi outputs < 2 ^ 64) :
    (outputs.foldl (fun total out => total + out.value) total).toNat = total.toNat + createdSompi
    outputs := by
  induction outputs generalizing total with
  | nil => rfl
  | cons output rest ih =>
    rw [createdSompi_cons] at fits ⊢
    have added : (total + output.value).toNat = total.toNat + output.value.toNat := by
      rw [UInt64.toNat_add]
      exact Nat.mod_eq_of_lt (by omega)
    rw [List.foldl_cons, ih _ (by omega), added, add_assoc]

/--
A transaction that passes both validations creates no value: over the naturals
its outputs are at most what it spends, which is at most the maximum, no
outpoint is spent twice, and the stored fee is the difference.
-/
theorem validated_amounts {later : Except AmountFailure Unit}
    {results : List (Option AmountFailure)} {tx : Transaction} {fee : Option UInt64}
    (isolated : validateTransactionInIsolation later tx = .ok ())
    (validated : validateTransactionInContextAndPopulateFee results tx =
      (fee, none)) : (∀ input ∈ tx.inputs, input.utxoEntry.isSome) ∧
    createdSompi tx.outputs ≤ spentSompi tx.inputs ∧ spentSompi tx.inputs ≤ maxSompi.toNat ∧
    (tx.inputs.map (·.previousOutpoint)).Nodup ∧ fee.map UInt64.toNat =
      some (spentSompi tx.inputs - createdSompi tx.outputs) := by
  rcases ok_of_bind isolated with ⟨_, -, isolated⟩
  rcases ok_of_bind isolated with ⟨_, amounts, isolated⟩
  rcases ok_of_bind isolated with ⟨_, duplicates, -⟩
  have within := created_le_of_checked amounts (Nat.zero_le _)
  rw [validateTransactionInContextAndPopulateFee] at validated
  split at validated
  · cases validated
  rename_i stored totals
  rcases Prod.mk.inj validated with ⟨rfl, -⟩
  rcases ok_of_bind totals with ⟨_, inputs, totals⟩
  rcases ok_of_bind totals with ⟨_, outputs, isFee⟩
  cases isFee
  rcases sumInputs_ok inputs (Nat.zero_le _) with ⟨-, resolved, isSum, atMost⟩
  rw [checkTransactionOutputAmounts] at outputs
  split_ifs at outputs with tooHigh
  cases outputs
  have isTotal := foldl_value_toNat tx.outputs 0 (by
    rw [maxSompi_toNat] at within
    omega)
  rw [UInt64.toNat_zero, zero_add] at isSum isTotal
  have covered : createdSompi tx.outputs ≤ spentSompi tx.inputs := by
    rw [← isSum, ← isTotal]
    exact not_lt.mp tooHigh
  refine ⟨resolved, covered, isSum ▸ atMost, (nodup_of_checked duplicates).1, ?_⟩
  rw [Option.map_some, UInt64.toNat_sub_of_le _ _ (Nat.not_lt.mp tooHigh), isSum, isTotal]

/-- A transaction that spends one coin of 50 and creates one of 40. -/
def payment : Transaction :=
  ⟨0, [⟨⟨.filled 1, 0⟩, [], 0, 0, some ⟨50, ⟨[], 0, Nat.two_pow_pos 63⟩, 5, false⟩⟩],
    [⟨40, ⟨[], 0, Nat.two_pow_pos 63⟩⟩], 0, subnetworkIDNative, 0, [], Nat.two_pow_pos 63⟩

theorem validated_amounts_payment : validateTransactionInIsolation (.ok ()) payment = .ok () ∧
      validateTransactionInContextAndPopulateFee [] payment = (some 10, none) ∧
      createdSompi payment.outputs ≤ spentSompi payment.inputs ∧
      spentSompi payment.inputs ≤ maxSompi.toNat := by
  have isolated : validateTransactionInIsolation (.ok ()) payment = .ok () := rfl
  have validated : validateTransactionInContextAndPopulateFee [] payment = (some 10, none) := rfl
  rcases validated_amounts isolated validated with ⟨-, covered, within, -, -⟩
  exact ⟨isolated, validated, covered, within⟩

end Htnd.TransactionValidator.Amounts
