import AionFastVM.Fvm.ExternalState

/-!
# Transactions

`FastVirtualMachine.run`: the rejection checks on the child of the external state, the nonce and the
energy charged to the child, the execution in a grandchild, and the commits that follow.
-/

namespace AionFastVM.Library

theorem bmod_of_fits {x : Int} (low : -2 ^ 63 ≤ x) (high : x < 2 ^ 63) : x.bmod (2 ^ 64) = x :=
  Int.bmod_eq_of_le (by omega) (by omega)

theorem Int64.toInt_add_of_fits {a b : Int64} (low : -2 ^ 63 ≤ a.toInt + b.toInt)
    (high : a.toInt + b.toInt < 2 ^ 63) : (a + b).toInt = a.toInt + b.toInt := by
  rw [Int64.toInt_add, bmod_of_fits low high]

theorem Int64.toInt_sub_of_fits {a b : Int64} (low : -2 ^ 63 ≤ a.toInt - b.toInt)
    (high : a.toInt - b.toInt < 2 ^ 63) : (a - b).toInt = a.toInt - b.toInt := by
  rw [Int64.toInt_sub, bmod_of_fits low high]

theorem Int64.toInt_mul_of_fits {a b : Int64} (low : -2 ^ 63 ≤ a.toInt * b.toInt)
    (high : a.toInt * b.toInt < 2 ^ 63) : (a * b).toInt = a.toInt * b.toInt := by
  rw [Int64.toInt_mul, bmod_of_fits low high]

theorem Int64.toInt_nonneg {x : Int64} (nonneg : 0 ≤ x) : 0 ≤ x.toInt := by
  simpa using Int64.le_iff_toInt_le.mp nonneg

end AionFastVM.Library

namespace AionFastVM.Fvm
open AionFastVM.Library AionFastVM.Jni AionFastVM.Jit

/-- `org.aion.types.Transaction`, with what its constructor checks; a create has no destination. -/
structure Transaction where
  senderAddress : Address
  destinationAddress : Option Address
  transactionHash : List UInt8
  value : Nat
  nonce : Nat
  energyPrice : Int64
  energyLimit : Int64
  transactionData : List UInt8
  energyPrice_nonneg : 0 ≤ energyPrice
  energyLimit_nonneg : 0 ≤ energyLimit
  data_fits : transactionData.length < 2 ^ 31

def Transaction.isCreate (t : Transaction) : Bool := t.destinationAddress.isNone

def createTransactionFee : Int64 := 200000

def transactionBaseFee : Int64 := 21000

def zeroByteFee : Int64 := 4

def nonzeroByteFee : Int64 := 64

def zeroBytesInData (data : List UInt8) : Nat := data.countP (· == 0)

def nonZeroBytesInData (data : List UInt8) : Nat := data.length - zeroBytesInData data

def computeTransactionCost (t : Transaction) : Int64 :=
  let data := t.transactionData
  (if t.isCreate then createTransactionFee else 0) + transactionBaseFee +
    Int64.ofNat (zeroBytesInData data) * zeroByteFee +
    Int64.ofNat (nonZeroBytesInData data) * nonzeroByteFee

/-- The fields `fromTransaction` gives the constructor are those `ExecutionContext.from` gives it. -/
def ExecutionContext.fromTransaction (t : Transaction) (contract : Option Address) (miner : Address)
    (blockNumber blockTimestamp blockEnergyLimit : Int64) (blockDifficulty : DataWord) :
    Option ExecutionContext :=
  let kind := if t.isCreate then TransactionKind.create else .call
  (if t.isCreate then contract else t.destinationAddress).bind fun destinationAddress =>
    ExecutionContext.«from» t.transactionHash destinationAddress t.senderAddress t.senderAddress
      t.energyPrice (t.energyLimit - computeTransactionCost t) t.value t.transactionData 0 kind 0
      miner blockNumber blockTimestamp blockEnergyLimit blockDifficulty

inductive TransactionStatus where
  | successful
  | rejection (error : FastVmResultCode)
  | revertedFailure
  | nonRevertedFailure (error : FastVmResultCode)
  | fatal (error : FastVmResultCode)
  deriving DecidableEq

/-- `FvmWrappedTransactionResult` and the `TransactionResult` it wraps; a status carries the code
whose name Java gives it. -/
structure FvmWrappedTransactionResult where
  status : TransactionStatus
  logs : List Log
  internalTransactions : List InternalTransaction
  energyUsed : Int64
  output : List UInt8
  deletedAddresses : Finset Address

def transactionStatusFromFvmResultCode (code : FastVmResultCode) : TransactionStatus :=
  if code.isSuccess then .successful
  else if code.isRejected then .rejection code
  else if code.isRevert then .revertedFailure
  else if code.isFailed then .nonRevertedFailure code
  else .fatal code

def createFvmWrappedTransactionResult (code : FastVmResultCode)
    (internalTransactions : List InternalTransaction) (logs : List Log) (energyUsed : Int64)
    (output : List UInt8) (deletedAddresses : Finset Address) : FvmWrappedTransactionResult :=
  ⟨transactionStatusFromFvmResultCode code, logs, internalTransactions, energyUsed, output,
    deletedAddresses⟩

def createWithCodeAndEnergyRemaining (code : FastVmResultCode) (energyUsed : Int64) :
    FvmWrappedTransactionResult :=
  ⟨transactionStatusFromFvmResultCode code, [], [], energyUsed, [], ∅⟩

def FastVM.runFork {W : Type} (vm : FastVM W) (isFork040enabled : Bool) :
    List UInt8 → ExecutionContext → SideEffects → W →
      Option (FastVmTransactionResult × List (W → W) × SideEffects) :=
  if isFork040enabled then vm.runPost040Fork else vm.runPre040Fork

section Run
variable {W : Type} (ext : ExternalState W) (vm : FastVM W) (capabilities : Capabilities)

def constructTransactionContext (w : W) (t : Transaction) (contract : Option Address) :
    Option ExecutionContext :=
  ExecutionContext.fromTransaction t contract (ext.getMinerAddress w) (ext.getBlockNumber w)
    (ext.getBlockTimestamp w) (ext.getBlockEnergyLimit w) (ext.getBlockDifficulty w)

def performRejectionChecks (w : W) (t : Transaction) (result : FastVmTransactionResult) :
    FastVmTransactionResult :=
  let energyLimit := t.energyLimit
  let reject (code : FastVmResultCode) : FastVmTransactionResult :=
    { result with code, energyRemaining := energyLimit }
  if t.isCreate ∧ !ext.isValidEnergyLimitForCreate w energyLimit t.transactionData then
    reject .invalidNrgLimit
  else if t.isCreate ∧ ext.isForkSignatureSwapEnabled w then reject .rejectDeploy
  else if !t.isCreate ∧ !ext.isValidEnergyLimitForNonCreate w energyLimit t.transactionData then
    reject .invalidNrgLimit
  else if !ext.accountNonceEquals w t.senderAddress t.nonce then reject .invalidNonce
  else if !ext.accountBalanceIsAtLeast w t.senderAddress
      (t.energyPrice.toInt * energyLimit.toInt + t.value) then reject .insufficientBalance
  else result

/-- The changes that the child made for the charge commits to its parent. -/
def incrementNonceAndDeductEnergyCost (t : Transaction) : List (W → W) :=
  [ext.incrementNonce t.senderAddress,
    ext.deductEnergyCost t.senderAddress (t.energyLimit.toInt * t.energyPrice.toInt)]

def valueTransfer (t : Transaction) (recipient : Address) : List (W → W) :=
  [ext.addBalance t.senderAddress (-t.value), ext.addBalance recipient t.value]

/-- The deployment that follows the collision checks, after `created` set the account up. -/
def deployContract (w : W) (context : ExecutionContext) (t : Transaction)
    (result : FastVmTransactionResult) (isFork040enabled : Bool) (contractAddress : Address)
    (created : List (W → W)) : Option (FastVmTransactionResult × List (W → W) × SideEffects) :=
  if t.transactionData.isEmpty then
    some (result, created ++ valueTransfer ext t contractAddress, SideEffects.empty)
  else
    (vm.runFork isFork040enabled t.transactionData context SideEffects.empty (play created w)).map
      fun (newResult, changes, sideEffects) =>
        let saved := if newResult.code.toInt = FastVmResultCode.success.toInt then
          [ext.putCode contractAddress newResult.output] else []
        (newResult, created ++ changes ++ saved ++ valueTransfer ext t contractAddress, sideEffects)

/-- The result, the changes made in the grandchild `w` is the view of, and the side effects. -/
def runContractCreationTransaction (w : W) (context : ExecutionContext) (t : Transaction)
    (result : FastVmTransactionResult) (isFork040enabled : Bool) :
    Option (FastVmTransactionResult × List (W → W) × SideEffects) :=
  let contractAddress := capabilities.computeNewContractAddress t.senderAddress t.nonce
  let failed := ({ result with code := .failure, energyRemaining := 0 }, [], SideEffects.empty)
  if ext.hasAccountState w contractAddress then
    if !isFork040enabled then some failed
    else if ext.getCode w contractAddress ≠ [] then some failed
    else if ext.getNonce w contractAddress ≠ 0 then some failed
    else if ext.hasStorage w contractAddress then some failed
    else deployContract ext vm w context t result isFork040enabled contractAddress
      [ext.setVmType contractAddress]
  else deployContract ext vm w context t result isFork040enabled contractAddress
    [ext.createAccount contractAddress, ext.setVmType contractAddress]

def runNonContractCreationTransaction (w : W) (context : ExecutionContext) (t : Transaction)
    (destinationAddress : Address) (result : FastVmTransactionResult) (isFork040enabled : Bool) :
    Option (FastVmTransactionResult × List (W → W) × SideEffects) :=
  let code := ext.getCode w destinationAddress
  if code.isEmpty then some (result, valueTransfer ext t destinationAddress, SideEffects.empty)
  else
    (vm.runFork isFork040enabled code context SideEffects.empty w).map
      fun (newResult, changes, sideEffects) =>
      (newResult, changes ++ valueTransfer ext t destinationAddress, sideEffects)

/-- The branch of `run` on `transaction.isCreate`. -/
def runTransaction (w : W) (context : ExecutionContext) (t : Transaction)
    (result : FastVmTransactionResult) (isFork040enabled : Bool) :
    Option (FastVmTransactionResult × List (W → W) × SideEffects) :=
  match t.destinationAddress with
  | none => runContractCreationTransaction ext vm capabilities w context t result isFork040enabled
  | some destinationAddress =>
    runNonContractCreationTransaction ext vm w context t destinationAddress result isFork040enabled

/-- The contract address `run` computes, for a create only. -/
def transactionContract (t : Transaction) : Option Address :=
  if t.isCreate then some (capabilities.computeNewContractAddress t.senderAddress t.nonce) else none

/-- The result `run` starts from, before the rejection checks. -/
def startingResult (t : Transaction) : FastVmTransactionResult :=
  FastVmTransactionResult.of .success (t.energyLimit - computeTransactionCost t) []

/-- `FastVirtualMachine.run` on the view `w` of the external state: its result and the view after it.
The child starts empty, so the rejection checks read `w`; the grandchild reads the child. -/
def run (w : W) (t : Transaction) (isFork040enabled : Bool) :
    Option (FvmWrappedTransactionResult × W) := do
  let context ← constructTransactionContext ext w t (transactionContract capabilities t)
  let result := performRejectionChecks ext w t (startingResult t)
  if !result.code.isSuccess then
    pure (createWithCodeAndEnergyRemaining result.code (t.energyLimit - result.energyRemaining), w)
  else
    let child := incrementNonceAndDeductEnergyCost ext t
    let (result, grandChild, sideEffects) ←
      runTransaction ext vm capabilities (play child w) context t result isFork040enabled
    -- grandChildExternalState.commit() on success, then childExternalState.commit() unless rejected
    let child := if result.code.isSuccess then child ++ grandChild else child
    let w := if !result.code.isRejected then play child w else w
    pure (createFvmWrappedTransactionResult result.code sideEffects.internalTxs sideEffects.logs
      (t.energyLimit - result.energyRemaining) result.output sideEffects.deleteAccounts, w)

end Run

/-! ## Energy -/

theorem nonZeroBytesInData_add (data : List UInt8) :
    zeroBytesInData data + nonZeroBytesInData data = data.length := by
  have atMost : zeroBytesInData data ≤ data.length := List.countP_le_length
  unfold nonZeroBytesInData
  omega

theorem toInt_ofNat_mul {n : Nat} {fee : Int64} (short : n < 2 ^ 31)
    (cheap : 0 ≤ fee.toInt ∧ fee.toInt ≤ 64) : (Int64.ofNat n * fee).toInt = n * fee.toInt := by
  have count : (Int64.ofNat n).toInt = n := Int64.toInt_ofNat_of_lt (by omega)
  rw [Int64.toInt_mul_of_fits (by rw [count]; nlinarith) (by rw [count]; nlinarith), count]

theorem toInt_computeTransactionCost (t : Transaction) :
    0 ≤ (computeTransactionCost t).toInt ∧ (computeTransactionCost t).toInt < 2 ^ 40 := by
  have split := nonZeroBytesInData_add t.transactionData
  have short := t.data_fits
  have fee : (if t.isCreate then createTransactionFee else 0).toInt = 0 ∨
      (if t.isCreate then createTransactionFee else 0).toInt = 200000 := by
    split
    · exact Or.inr rfl
    · exact Or.inl rfl
  have base : transactionBaseFee.toInt = 21000 := rfl
  have zeroes : (Int64.ofNat (zeroBytesInData t.transactionData) * zeroByteFee).toInt =
      (zeroBytesInData t.transactionData : Int) * 4 :=
    toInt_ofNat_mul (by omega) ⟨by decide, by decide⟩
  have nonZeroes : (Int64.ofNat (nonZeroBytesInData t.transactionData) * nonzeroByteFee).toInt =
      (nonZeroBytesInData t.transactionData : Int) * 64 :=
    toInt_ofNat_mul (by omega) ⟨by decide, by decide⟩
  unfold computeTransactionCost
  dsimp only
  generalize (if t.isCreate then createTransactionFee else 0) = createFee at fee ⊢
  generalize Int64.ofNat (zeroBytesInData t.transactionData) * zeroByteFee = zeroCost at zeroes ⊢
  generalize Int64.ofNat (nonZeroBytesInData t.transactionData) * nonzeroByteFee = nonZeroCost
    at nonZeroes ⊢
  -- the three sums stay far below 2^63
  have first : (createFee + transactionBaseFee).toInt = createFee.toInt + transactionBaseFee.toInt :=
    Int64.toInt_add_of_fits (by omega) (by omega)
  have second : (createFee + transactionBaseFee + zeroCost).toInt =
      (createFee + transactionBaseFee).toInt + zeroCost.toInt :=
    Int64.toInt_add_of_fits (by omega) (by omega)
  have third : (createFee + transactionBaseFee + zeroCost + nonZeroCost).toInt =
      (createFee + transactionBaseFee + zeroCost).toInt + nonZeroCost.toInt :=
    Int64.toInt_add_of_fits (by omega) (by omega)
  omega

theorem toInt_transactionEnergy (t : Transaction) :
    (t.energyLimit - computeTransactionCost t).toInt =
      t.energyLimit.toInt - (computeTransactionCost t).toInt := by
  have cost := toInt_computeTransactionCost t
  have limit := Int64.toInt_nonneg t.energyLimit_nonneg
  have below := Int64.toInt_lt t.energyLimit
  exact Int64.toInt_sub_of_fits (by omega) (by omega)

/-- An energy remaining between none and the transaction's limit. -/
def WithinLimit (t : Transaction) (result : FastVmTransactionResult) : Prop :=
  0 ≤ result.energyRemaining.toInt ∧ result.energyRemaining.toInt ≤ t.energyLimit.toInt

theorem WithinLimit.energyUsed {t : Transaction} {result : FastVmTransactionResult}
    (within : WithinLimit t result) :
    0 ≤ t.energyLimit - result.energyRemaining ∧ t.energyLimit - result.energyRemaining ≤ t.energyLimit := by
  obtain ⟨nonneg, atMost⟩ := within
  have below := Int64.toInt_lt t.energyLimit
  have used : (t.energyLimit - result.energyRemaining).toInt =
      t.energyLimit.toInt - result.energyRemaining.toInt :=
    Int64.toInt_sub_of_fits (by omega) (by omega)
  have zero : (0 : Int64).toInt = 0 := rfl
  rw [Int64.le_iff_toInt_le, Int64.le_iff_toInt_le, used, zero]
  constructor <;> omega

theorem startingResult_within (t : Transaction) : WithinLimit t (startingResult t) := by
  have cost := toInt_computeTransactionCost t
  have energy := toInt_transactionEnergy t
  have limit := Int64.toInt_nonneg t.energyLimit_nonneg
  unfold WithinLimit startingResult FastVmTransactionResult.of FastVmTransactionResult.checkNegativeEnergy
  dsimp only
  split
  case isTrue nonneg =>
    have positive := Int64.toInt_nonneg nonneg
    constructor <;> omega
  case isFalse => exact ⟨le_refl 0, limit⟩

theorem FastVM.Decoded.within {context : ExecutionContext} {t : Transaction}
    {result : FastVmTransactionResult} (decoded : FastVM.Decoded context result)
    (energy : context.nrg = t.energyLimit - computeTransactionCost t) : WithinLimit t result := by
  have cost := toInt_computeTransactionCost t
  have limit := Int64.toInt_nonneg t.energyLimit_nonneg
  have bounded := decoded.bounded
  rw [energy, toInt_transactionEnergy] at bounded
  refine ⟨Int64.toInt_nonneg decoded.nonneg, ?_⟩
  rcases max_cases (t.energyLimit.toInt - (computeTransactionCost t).toInt) 0 with ⟨is, -⟩ | ⟨is, -⟩ <;>
    omega

/-! ## Outcomes -/

section Outcomes
variable {W : Type} {ext : ExternalState W} {vm : FastVM W} {capabilities : Capabilities}

theorem performRejectionChecks_cases (ext : ExternalState W) (w : W) (t : Transaction)
    (result : FastVmTransactionResult) :
    performRejectionChecks ext w t result = result ∨
      ∃ code, code.isRejected = true ∧
        performRejectionChecks ext w t result = { result with code, energyRemaining := t.energyLimit } := by
  unfold performRejectionChecks
  dsimp only
  -- every check that fails sets a rejected code and the whole limit as the energy left
  split_ifs
  all_goals first
    | exact .inr ⟨_, rfl, rfl⟩
    | exact .inl rfl

theorem runFork_answers (answers : vm.Answers) (isFork040enabled : Bool) (code : List UInt8)
    (ctx : ExecutionContext) (recorded : SideEffects) (w : W) :
    ∃ result changes sideEffects,
      vm.runFork isFork040enabled code ctx recorded w = some (result, changes, sideEffects) ∧
        FastVM.Decoded ctx result := by
  cases isFork040enabled
  case false =>
    obtain ⟨result, ran, decoded⟩ := vm.runAt_answers answers .aion code ctx recorded w
    exact ⟨result, _, _, ran, decoded⟩
  case true =>
    obtain ⟨result, ran, decoded⟩ := vm.runAt_answers answers .aionV1 code ctx recorded w
    exact ⟨result, _, _, ran, decoded⟩

theorem runFork_decoded (answers : vm.Answers) {isFork040enabled : Bool} {code : List UInt8}
    {ctx : ExecutionContext} {recorded : SideEffects} {w : W} {result : FastVmTransactionResult}
    {changes : List (W → W)} {sideEffects : SideEffects}
    (ran : vm.runFork isFork040enabled code ctx recorded w = some (result, changes, sideEffects)) :
    FastVM.Decoded ctx result := by
  obtain ⟨result', changes', sideEffects', ran', decoded⟩ :=
    runFork_answers answers isFork040enabled code ctx recorded w
  rw [ran, Option.some.injEq, Prod.mk.injEq] at ran'
  exact ran'.1 ▸ decoded

/-- What the execution of a transaction ends in: the collision failure of a create, which changes
nothing, or the result it was given or a native run's, with changes that end in the value transfer. -/
def Executed (ext : ExternalState W) (context : ExecutionContext) (t : Transaction)
    (result r : FastVmTransactionResult) (grandChild : List (W → W)) : Prop :=
  (r = { result with code := .failure, energyRemaining := 0 } ∧ grandChild = []) ∨
  ((r = result ∨ FastVM.Decoded context r) ∧
    ∃ executed recipient, grandChild = executed ++ valueTransfer ext t recipient)

variable {w : W} {context : ExecutionContext} {t : Transaction} {result r : FastVmTransactionResult}
  {isFork040enabled : Bool} {grandChild : List (W → W)} {sideEffects : SideEffects}

theorem deployContract_executed (answers : vm.Answers) {contractAddress : Address}
    {created : List (W → W)}
    (ran : deployContract ext vm w context t result isFork040enabled contractAddress created =
      some (r, grandChild, sideEffects)) :
    Executed ext context t result r grandChild := by
  unfold deployContract at ran
  split at ran
  · cases ran
    exact .inr ⟨.inl rfl, created, contractAddress, rfl⟩
  · obtain ⟨⟨newResult, changes, sideEffects⟩, ranVm, done⟩ := Option.map_eq_some_iff.mp ran
    cases done
    exact .inr ⟨.inr (runFork_decoded answers ranVm), _, contractAddress, rfl⟩

theorem runContractCreationTransaction_executed (answers : vm.Answers)
    (ran : runContractCreationTransaction ext vm capabilities w context t result isFork040enabled =
      some (r, grandChild, sideEffects)) :
    Executed ext context t result r grandChild := by
  unfold runContractCreationTransaction at ran
  dsimp only at ran
  -- each collision check that fails ends the create before any change
  split_ifs at ran
  all_goals first
    | (cases ran; exact .inl ⟨rfl, rfl⟩)
    | exact deployContract_executed answers ran

theorem runNonContractCreationTransaction_executed (answers : vm.Answers)
    {destinationAddress : Address}
    (ran : runNonContractCreationTransaction ext vm w context t destinationAddress result
      isFork040enabled = some (r, grandChild, sideEffects)) :
    Executed ext context t result r grandChild := by
  unfold runNonContractCreationTransaction at ran
  dsimp only at ran
  split at ran
  · cases ran
    exact .inr ⟨.inl rfl, [], destinationAddress, rfl⟩
  · obtain ⟨⟨newResult, changes, sideEffects⟩, ranVm, done⟩ := Option.map_eq_some_iff.mp ran
    cases done
    exact .inr ⟨.inr (runFork_decoded answers ranVm), changes, destinationAddress, rfl⟩

theorem runTransaction_executed (answers : vm.Answers)
    (ran : runTransaction ext vm capabilities w context t result isFork040enabled =
      some (r, grandChild, sideEffects)) :
    Executed ext context t result r grandChild := by
  unfold runTransaction at ran
  split at ran
  · exact runContractCreationTransaction_executed answers ran
  · exact runNonContractCreationTransaction_executed answers ran

theorem deployContract_isSome (ext : ExternalState W) (answers : vm.Answers) (w : W) (context : ExecutionContext)
    (t : Transaction) (result : FastVmTransactionResult) (isFork040enabled : Bool)
    (contractAddress : Address) (created : List (W → W)) :
    ∃ out, deployContract ext vm w context t result isFork040enabled contractAddress created =
      some out := by
  unfold deployContract
  split
  · exact ⟨_, rfl⟩
  · obtain ⟨newResult, changes, sideEffects, ranVm, -⟩ :=
      runFork_answers answers isFork040enabled t.transactionData context SideEffects.empty
        (play created w)
    rw [ranVm]
    exact ⟨_, rfl⟩

theorem runTransaction_isSome (ext : ExternalState W) (capabilities : Capabilities)
    (answers : vm.Answers) (w : W) (context : ExecutionContext)
    (t : Transaction) (result : FastVmTransactionResult) (isFork040enabled : Bool) :
    ∃ out, runTransaction ext vm capabilities w context t result isFork040enabled = some out := by
  unfold runTransaction
  split
  · unfold runContractCreationTransaction
    dsimp only
    split_ifs
    all_goals first
      | exact ⟨_, rfl⟩
      | exact deployContract_isSome ext answers _ _ _ _ _ _ _
  · unfold runNonContractCreationTransaction
    dsimp only
    split
    · exact ⟨_, rfl⟩
    · obtain ⟨newResult, changes, sideEffects, ranVm, -⟩ :=
        runFork_answers answers isFork040enabled _ context SideEffects.empty w
      rw [ranVm]
      exact ⟨_, rfl⟩

theorem Executed.not_rejected (notRejected : result.code.isRejected = false)
    (executed : Executed ext context t result r grandChild) : r.code.isRejected = false := by
  rcases executed with ⟨rfl, -⟩ | ⟨rfl | decoded, -⟩
  · rfl
  · exact notRejected
  · exact decoded.not_rejected

theorem Executed.within (within : WithinLimit t result)
    (energy : context.nrg = t.energyLimit - computeTransactionCost t)
    (executed : Executed ext context t result r grandChild) : WithinLimit t r := by
  rcases executed with ⟨rfl, -⟩ | ⟨rfl | decoded, -⟩
  · exact ⟨le_refl 0, Int64.toInt_nonneg t.energyLimit_nonneg⟩
  · exact within
  · exact decoded.within energy

theorem Executed.transfer (executed : Executed ext context t result r grandChild)
    (success : r.code.isSuccess = true) :
    ∃ executed recipient, grandChild = executed ++ valueTransfer ext t recipient := by
  rcases executed with ⟨rfl, -⟩ | ⟨-, transfer⟩
  · cases success
  · exact transfer

theorem constructTransactionContext_nrg {contract : Option Address}
    (built : constructTransactionContext ext w t contract = some context) :
    context.nrg = t.energyLimit - computeTransactionCost t := by
  unfold constructTransactionContext ExecutionContext.fromTransaction at built
  obtain ⟨destination, -, built⟩ := Option.bind_eq_some_iff.mp built
  obtain ⟨callValue, -, rfl⟩ := Option.map_eq_some_iff.mp built
  rfl

theorem constructTransactionContext_isSome (ext : ExternalState W) (capabilities : Capabilities)
    (w : W) (t : Transaction) (fits : t.value < 2 ^ 128) :
    ∃ context, constructTransactionContext ext w t (transactionContract capabilities t) =
      some context := by
  obtain ⟨callValue, valued, -⟩ :=
    Option.map_eq_some_iff.mp (DataWord.fromBigInteger_of_lt (by simpa using fits))
  unfold constructTransactionContext ExecutionContext.fromTransaction transactionContract
    Transaction.isCreate
  cases destination : t.destinationAddress <;>
    simp [ExecutionContext.«from», valued]

theorem transactionStatus_successful {code : FastVmResultCode} :
    transactionStatusFromFvmResultCode code = .successful ↔ code.isSuccess = true := by
  unfold transactionStatusFromFvmResultCode
  split_ifs <;> simp_all

theorem isRejected_of_transactionStatus {code error : FastVmResultCode}
    (rejection : transactionStatusFromFvmResultCode code = .rejection error) :
    code.isRejected = true := by
  unfold transactionStatusFromFvmResultCode at rejection
  -- every other branch builds another constructor
  split_ifs at rejection with notSuccess rejected
  exact rejected

theorem run_of_rejected {code : FastVmResultCode}
    (built : constructTransactionContext ext w t (transactionContract capabilities t) = some context)
    (rejected : code.isRejected = true)
    (checked : performRejectionChecks ext w t (startingResult t) =
      { startingResult t with code, energyRemaining := t.energyLimit }) :
    run ext vm capabilities w t isFork040enabled =
      some (createWithCodeAndEnergyRemaining code (t.energyLimit - t.energyLimit), w) := by
  have failing : code.isSuccess = false := by
    cases code <;> simp_all [FastVmResultCode.isSuccess, FastVmResultCode.isRejected,
      FastVmResultCode.category]
  simp [run, built, checked, failing]

theorem run_of_accepted
    (built : constructTransactionContext ext w t (transactionContract capabilities t) = some context)
    (accepted : performRejectionChecks ext w t (startingResult t) = startingResult t)
    (ran : runTransaction ext vm capabilities (play (incrementNonceAndDeductEnergyCost ext t) w) context
      t (startingResult t) isFork040enabled = some (r, grandChild, sideEffects)) :
    run ext vm capabilities w t isFork040enabled =
      some (createFvmWrappedTransactionResult r.code sideEffects.internalTxs sideEffects.logs
          (t.energyLimit - r.energyRemaining) r.output sideEffects.deleteAccounts,
        if !r.code.isRejected then
          play (if r.code.isSuccess then incrementNonceAndDeductEnergyCost ext t ++ grandChild
            else incrementNonceAndDeductEnergyCost ext t) w
        else w) := by
  have starting : (startingResult t).code.isSuccess = true := rfl
  simp only [run, built, accepted, starting, ran, Option.bind_eq_bind, Option.bind_some,
    Bool.not_true, Bool.false_eq_true, if_false]
  rfl

end Outcomes

/-- What a transaction that `run` returns on uses and commits, by its outcome: a rejection uses no
energy and commits nothing, any other failure commits only the charge of the child, and a success
commits the child and the whole of what the execution recorded in the grandchild. -/
structure Accounted {W : Type} (ext : ExternalState W) (vm : FastVM W) (capabilities : Capabilities)
    (w : W) (t : Transaction) (isFork040enabled : Bool) (r : FvmWrappedTransactionResult) (w' : W) :
    Prop where
  energy : 0 ≤ r.energyUsed ∧ r.energyUsed ≤ t.energyLimit
  rejected : ∀ code, r.status = .rejection code → r.energyUsed = 0 ∧ w' = w
  failed : r.status ≠ .successful → (∀ code, r.status ≠ .rejection code) →
    w' = play (incrementNonceAndDeductEnergyCost ext t) w
  succeeded : r.status = .successful → ∃ context result grandChild sideEffects,
    constructTransactionContext ext w t (transactionContract capabilities t) = some context ∧
    runTransaction ext vm capabilities (play (incrementNonceAndDeductEnergyCost ext t) w) context t
      (startingResult t) isFork040enabled = some (result, grandChild, sideEffects) ∧
    (∃ executed recipient, grandChild = executed ++ valueTransfer ext t recipient) ∧
    w' = play grandChild (play (incrementNonceAndDeductEnergyCost ext t) w)

/-- A world of one state that accepts every transaction and that no update changes. -/
def acceptingState : ExternalState Unit where
  isValidEnergyLimitForCreate _ _ _ := true
  isValidEnergyLimitForNonCreate _ _ _ := true
  isForkSignatureSwapEnabled _ := false
  isFork040enabled _ := true
  accountNonceEquals _ _ _ := true
  accountBalanceIsAtLeast _ _ _ := true
  hasAccountState _ _ := false
  hasStorage _ _ := false
  getCode _ _ := []
  getNonce _ _ := 0
  getBalance _ _ := 0
  destinationAddressIsSafeForFvm _ _ := true
  isPrecompiledContract _ _ := false
  runInternalPrecompiledContractCall _ _ := (FastVmTransactionResult.of .success 0 [], [], id)
  getMinerAddress _ := List.Vector.replicate 32 0
  getBlockNumber _ := 0
  getBlockTimestamp _ := 0
  getBlockEnergyLimit _ := 0
  getBlockDifficulty _ := DataWord.zero
  incrementNonce _ w := w
  deductEnergyCost _ _ w := w
  createAccount _ w := w
  setVmType _ w := w
  putCode _ _ w := w
  addBalance _ _ w := w

/-- A native run that succeeds at once, with no energy left and nothing recorded. -/
def idleVm : FastVM Unit := ⟨fun _ _ _ _ => ⟨⟨0, 0, []⟩, [], id⟩⟩

theorem idleVm_answers : idleVm.Answers :=
  ⟨fun _ _ _ _ => ⟨.success, rfl⟩, fun _ _ _ _ => show 0 < 2 ^ 31 by decide,
    fun _ _ _ _ => le_max_right _ _⟩

end AionFastVM.Fvm
