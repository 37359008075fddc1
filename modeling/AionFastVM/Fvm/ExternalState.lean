import AionFastVM.Jni.Result
import Mathlib.Data.Finset.Basic

/-!
# The external state, side effects and the native run seen from Java

`IExternalStateForFvm` as its documentation describes it: a child world state records its changes
over the live view of its parent, `commit` appends them to the parent's and `rollback` drops them.
A world state is the list of changes it holds, played over its parent's view.
-/

namespace AionFastVM.Library

section Journal
variable {W : Type}

def play (changes : List (W → W)) (w : W) : W := changes.foldl (fun w change => change w) w

@[simp] theorem play_nil (w : W) : play [] w = w := rfl

@[simp] theorem play_cons (change : W → W) (changes : List (W → W)) (w : W) :
    play (change :: changes) w = play changes (change w) := rfl

@[simp] theorem play_append (first second : List (W → W)) (w : W) :
    play (first ++ second) w = play second (play first w) :=
  List.foldl_append

end Journal

end AionFastVM.Library

namespace AionFastVM.Jni.FastVmResultCode

inductive ResultCategory where
  | success
  | rejected
  | failed
  | fatal
  | revert
  deriving DecidableEq

def category : FastVmResultCode → ResultCategory
  | success => .success
  | invalidNonce | invalidNrgLimit | insufficientBalance | rejectDeploy => .rejected
  | failure | outOfNrg | badInstruction | badJumpDestination | stackOverflow | stackUnderflow
  | staticModeError | incompatibleContractCall | abort => .failed
  | revert => .revert
  | vmRejected | vmInternalError => .fatal

def isSuccess (code : FastVmResultCode) : Bool := code.category == .success

def isRejected (code : FastVmResultCode) : Bool := code.category == .rejected

def isFailed (code : FastVmResultCode) : Bool := code.category == .failed || code.category == .revert

def isRevert (code : FastVmResultCode) : Bool := code.category == .revert

theorem toInt_of_isRejected {code : FastVmResultCode} (rejected : code.isRejected = true) :
    101 ≤ code.toInt.toInt ∧ code.toInt.toInt ≤ 104 := by
  cases code <;> simp [isRejected, category] at rejected <;> decide

/-- Only the Java side rejects: no `evm_status_code` reads as a rejected code. -/
theorem isRejected_of_evmStatusCode {code : FastVmResultCode} {status : EvmStatusCode}
    (same : code.toInt = status.toInt) : code.isRejected = false := by
  have below : status.toInt.toInt < 101 := by cases status <;> decide
  cases rejected : code.isRejected
  · rfl
  · have bounds := toInt_of_isRejected rejected
    rw [same] at bounds
    omega

end AionFastVM.Jni.FastVmResultCode

namespace AionFastVM.Fvm
open AionFastVM.Library AionFastVM.Jni AionFastVM.Jit

/-! ## Side effects -/

/-- `org.aion.types.InternalTransaction`, whose `equals` compares every field; a create has no
destination. -/
structure InternalTransaction where
  isRejected : Bool
  sender : Address
  destination : Option Address
  senderNonce : Nat
  value : Nat
  data : List UInt8
  energyLimit : Int64
  energyPrice : Int64
  deriving DecidableEq

structure Log where
  address : List UInt8
  topics : List (List UInt8)
  data : List UInt8
  deriving DecidableEq

structure SideEffects where
  deleteAccounts : Finset Address
  internalTxs : List InternalTransaction
  logs : List Log

namespace SideEffects

def empty : SideEffects := ⟨∅, [], []⟩

def copyTransactionAsRejected (transaction : InternalTransaction) : InternalTransaction :=
  { transaction with isRejected := true }

def addInternalTransaction (s : SideEffects) (tx : InternalTransaction) : SideEffects :=
  { s with internalTxs := s.internalTxs ++ [tx] }

def addInternalTransactions (s : SideEffects) (txs : List InternalTransaction) : SideEffects :=
  { s with internalTxs := s.internalTxs ++ txs }

def markAllInternalTransactionsAsRejected (s : SideEffects) : SideEffects :=
  { s with internalTxs := s.internalTxs.map copyTransactionAsRejected }

/-- `List.remove(Object)` takes out the first transaction equal to the last one, not the last one. -/
def markMostRecentInternalTransactionAsRejected (s : SideEffects) : SideEffects :=
  match s.internalTxs.getLast? with
  | none => s
  | some toReject =>
    { s with internalTxs := s.internalTxs.erase toReject ++ [copyTransactionAsRejected toReject] }

def merge (s other : SideEffects) : SideEffects :=
  { deleteAccounts := s.deleteAccounts ∪ other.deleteAccounts,
    internalTxs := s.internalTxs ++ other.internalTxs,
    logs := s.logs ++ other.logs }

theorem markMostRecent_addInternalTransaction (s : SideEffects) (tx : InternalTransaction) :
    (s.addInternalTransaction tx).markMostRecentInternalTransactionAsRejected =
      { s with internalTxs := (s.internalTxs ++ [tx]).erase tx ++ [copyTransactionAsRejected tx] } := by
  simp only [markMostRecentInternalTransactionAsRejected, addInternalTransaction, List.getLast?_concat]

end SideEffects

/-! ## The external state -/

/-- The queries and updates of `IExternalStateForFvm` that the modelled code uses. A `null` code is
the empty one: every caller treats the two alike. -/
structure ExternalState (W : Type) where
  isValidEnergyLimitForCreate : W → Int64 → List UInt8 → Bool
  isValidEnergyLimitForNonCreate : W → Int64 → List UInt8 → Bool
  isForkSignatureSwapEnabled : W → Bool
  isFork040enabled : W → Bool
  accountNonceEquals : W → Address → Nat → Bool
  accountBalanceIsAtLeast : W → Address → Int → Bool
  hasAccountState : W → Address → Bool
  hasStorage : W → Address → Bool
  getCode : W → Address → List UInt8
  getNonce : W → Address → Nat
  getBalance : W → Address → Nat
  destinationAddressIsSafeForFvm : W → Address → Bool
  isPrecompiledContract : W → Address → Bool
  runInternalPrecompiledContractCall :
    W → ExecutionContext → FastVmTransactionResult × List (W → W) × (SideEffects → SideEffects)
  getMinerAddress : W → Address
  getBlockNumber : W → Int64
  getBlockTimestamp : W → Int64
  getBlockEnergyLimit : W → Int64
  getBlockDifficulty : W → DataWord
  incrementNonce : Address → W → W
  deductEnergyCost : Address → Int → W → W
  createAccount : Address → W → W
  setVmType : Address → W → W
  putCode : Address → List UInt8 → W → W
  addBalance : Address → Int → W → W

structure Capabilities where
  computeNewContractAddress : Address → Nat → Address

/-! ## The native run -/

/-- What the native side of `FastVM.run` does with a code and a context's bytes at a revision, against
the world state on top of the `Callback` stack: its `evm_result`, the changes its callbacks made to
that state and what they did to the context's side effects. -/
structure NativeRun (W : Type) where
  result : EvmResult
  changes : List (W → W)
  sideEffects : SideEffects → SideEffects

structure FastVM (W : Type) where
  execute : Revision → List UInt8 → List UInt8 → W → NativeRun W

namespace FastVM
variable {W : Type} (vm : FastVM W)

/-- `FastVM.run` on a context that holds `sideEffects`, and the decoding of its bytes; the push and pop
of `Callback` frame the native run. -/
def runAt (rev : Revision) (code : List UInt8) (ctx : ExecutionContext) (sideEffects : SideEffects)
    (w : W) : Option (FastVmTransactionResult × List (W → W) × SideEffects) :=
  let ran := vm.execute rev code ctx.toBytes w
  (FastVmTransactionResult.fromBytes (encodeResult ran.result)).map
    fun (result, _) => (result, ran.changes, ran.sideEffects sideEffects)

def runPre040Fork (code : List UInt8) (ctx : ExecutionContext) (sideEffects : SideEffects) (w : W) :
    Option (FastVmTransactionResult × List (W → W) × SideEffects) :=
  vm.runAt .aion code ctx sideEffects w

def runPost040Fork (code : List UInt8) (ctx : ExecutionContext) (sideEffects : SideEffects) (w : W) :
    Option (FastVmTransactionResult × List (W → W) × SideEffects) :=
  vm.runAt .aionV1 code ctx sideEffects w

/-- What a native run answers: an `evm_status_code`, an output a Java array holds, and at most the
energy the context gave it (none when that is negative). -/
structure Answers : Prop where
  status : ∀ rev code ctx w, ∃ status : EvmStatusCode,
    (vm.execute rev code (ExecutionContext.toBytes ctx) w).result.statusCode = status.toInt
  fits : ∀ rev code ctx w, (vm.execute rev code (ExecutionContext.toBytes ctx) w).result.output.length < 2 ^ 31
  bounded : ∀ rev code ctx w,
    (vm.execute rev code (ExecutionContext.toBytes ctx) w).result.gasLeft.toInt ≤ max ctx.nrg.toInt 0

/-- What a run answers once decoded: never a rejection, and an energy between none and what the
context gave. -/
structure Decoded (ctx : ExecutionContext) (result : FastVmTransactionResult) : Prop where
  not_rejected : result.code.isRejected = false
  nonneg : 0 ≤ result.energyRemaining
  bounded : result.energyRemaining.toInt ≤ max ctx.nrg.toInt 0

theorem runAt_answers (answers : vm.Answers) (rev : Revision) (code : List UInt8)
    (ctx : ExecutionContext) (sideEffects : SideEffects) (w : W) :
    ∃ result, vm.runAt rev code ctx sideEffects w =
        some (result, (vm.execute rev code ctx.toBytes w).changes,
          (vm.execute rev code ctx.toBytes w).sideEffects sideEffects) ∧ Decoded ctx result := by
  obtain ⟨status, statusIs⟩ := answers.status rev code ctx w
  obtain ⟨resultCode, -, sameInt⟩ := FastVmResultCode.fromInt_evmStatusCode status
  generalize ran : vm.execute rev code ctx.toBytes w = native at statusIs
  have decoded := fromBytes_encodeResult (statusIs.trans sameInt.symm)
    (ran ▸ answers.fits rev code ctx w) []
  rw [List.append_nil] at decoded
  refine ⟨_, by rw [runAt, ran, decoded]; rfl, ⟨?_, ?_, ?_⟩⟩
  · exact FastVmResultCode.isRejected_of_evmStatusCode sameInt
  · exact FastVmTransactionResult.energyRemaining_of_nonneg _ _ _
  · -- `checkNegativeEnergy` keeps an energy that is not negative and makes any other none
    have bound := ran ▸ answers.bounded rev code ctx w
    simp only [FastVmTransactionResult.of, FastVmTransactionResult.checkNegativeEnergy]
    split
    · exact bound
    · exact le_max_right _ _

end FastVM

end AionFastVM.Fvm
