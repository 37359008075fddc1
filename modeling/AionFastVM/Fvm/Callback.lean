import AionFastVM.Fvm.Transaction

/-!
# Nested calls

`Callback.performCall` with `doCall` and `doCreate`: a CALL-like or CREATE message of a native run
executes in a child of the caller's world state, under a context of its own with side effects of its
own, and its result decides what of the child and of those side effects reaches the caller. The run
it starts is any `FastVM`, as `performCall` takes one.

The caller is its context, its side effects and the view `w` of its world state; a nested call
returns its result, the changes its child commits to the caller's state and the caller's side
effects after it. The `Callback` stack needs no state here: `FastVM.run` pops the callee's frame
before `doCall` or `doCreate` reads the outcome, so the caller's frame is on top again.
-/

namespace AionFastVM.Library

theorem erase_concat_perm {α : Type} [DecidableEq α] (l : List α) (a : α) :
    ((l ++ [a]).erase a).Perm l := by
  have moved : (l ++ [a]).Perm (a :: (l ++ [a]).erase a) := List.perm_cons_erase (by simp)
  exact (moved.symm.trans (List.perm_append_singleton a l)).cons_inv

theorem erase_first_concat {α : Type} [DecidableEq α] {a : α} {pre : List α} (first : a ∉ pre)
    (post : List α) : (pre ++ a :: post ++ [a]).erase a = pre ++ post ++ [a] := by
  rw [List.append_assoc, List.erase_append_right _ first, List.cons_append, List.erase_cons_head,
    List.append_assoc]

end AionFastVM.Library

namespace AionFastVM.Jni

def ExecutionContext.getTransferValue (ctx : ExecutionContext) : Nat :=
  DataWord.toBigInteger ctx.callValue

end AionFastVM.Jni

namespace AionFastVM.Fvm
open AionFastVM.Library AionFastVM.Jni

def maxCallDepth : Int32 := 128

def energyCodeDeposit : Int64 := 1000

namespace InternalTransaction

def contractCallTransaction (isRejected : Bool) (sender destination : Address) (senderNonce value : Nat)
    (data : List UInt8) (energyLimit energyPrice : Int64) : InternalTransaction :=
  ⟨isRejected, sender, some destination, senderNonce, value, data, energyLimit, energyPrice⟩

def contractCreateTransaction (isRejected : Bool) (sender : Address) (senderNonce value : Nat)
    (data : List UInt8) (energyLimit energyPrice : Int64) : InternalTransaction :=
  ⟨isRejected, sender, none, senderNonce, value, data, energyLimit, energyPrice⟩

end InternalTransaction

/-- What `doCall` and `doCreate` leave: the result, the changes the child commits to the caller's
state, and the side effects of the caller's context and of the callee's. -/
structure CallOutcome (W : Type) where
  result : FastVmTransactionResult
  committed : List (W → W)
  callerEffects : SideEffects
  calleeEffects : SideEffects

section Callback
variable {W : Type} (ext : ExternalState W) (vm : FastVM W) (capabilities : Capabilities)

/-- The post execution of a result other than SUCCESS: the caller's newest internal transaction and
all of the callee's are marked rejected, and the child is rolled back. -/
def rolledBack (result : FastVmTransactionResult) (callerEffects calleeEffects : SideEffects) :
    CallOutcome W :=
  ⟨result, [], callerEffects.markMostRecentInternalTransactionAsRejected,
    calleeEffects.markAllInternalTransactionsAsRejected⟩

def transferBalance (ctx : ExecutionContext) : List (W → W) :=
  [ext.addBalance ctx.sender (-ctx.getTransferValue), ext.addBalance ctx.address ctx.getTransferValue]

/-- CALLCODE and DELEGATECALL run the code at the destination as the caller. -/
def calleeContext (prev ctx : ExecutionContext) : ExecutionContext :=
  if ctx.kind = .callcode ∨ ctx.kind = .delegateCall then { ctx with address := prev.address } else ctx

/-- The execution in `doCall`, against the child's view: a precompiled contract, or the code at
`codeAddress` when it has any; without code `result` stands. -/
def runCallee (ctx : ExecutionContext) (codeAddress : Address) (result : FastVmTransactionResult)
    (child : W) : Option (FastVmTransactionResult × List (W → W) × SideEffects) :=
  if ext.isPrecompiledContract child ctx.address then
    let (result, changes, recorded) := ext.runInternalPrecompiledContractCall child ctx
    some (result, changes, recorded SideEffects.empty)
  else
    let code := if ext.hasAccountState child codeAddress then ext.getCode child codeAddress else []
    if code.isEmpty then some (result, [], SideEffects.empty)
    -- runPost040Fork once the signature swap fork is enabled, runPre040Fork before it
    else vm.runFork (ext.isForkSignatureSwapEnabled child) code ctx SideEffects.empty child

def doCall (prev : ExecutionContext) (callerEffects : SideEffects) (ctx : ExecutionContext) (w : W) :
    Option (CallOutcome W) :=
  let codeAddress := ctx.address
  let ctx := calleeContext prev ctx
  if !ext.destinationAddressIsSafeForFvm w codeAddress then
    some ⟨FastVmTransactionResult.of .incompatibleContractCall 0 [], [], callerEffects, SideEffects.empty⟩
  else
    let result := FastVmTransactionResult.of .success ctx.nrg []
    let internalTx := InternalTransaction.contractCallTransaction false ctx.sender ctx.address
      (ext.getNonce w ctx.sender) ctx.getTransferValue ctx.callData 0 1
    let callerEffects := callerEffects.addInternalTransaction internalTx
    let transfer := if ctx.kind ≠ .delegateCall ∧ ctx.kind ≠ .callcode then transferBalance ext ctx else []
    (runCallee ext vm ctx codeAddress result (play transfer w)).map fun (result, changes, calleeEffects) =>
      if result.code.toInt ≠ FastVmResultCode.success.toInt then
        rolledBack result callerEffects calleeEffects
      else ⟨result, transfer ++ changes, callerEffects, calleeEffects⟩

/-- What the child of a CREATE does before the execution: the new account keeps its old balance,
takes the value, and the nonces of both accounts move on. -/
def createAccountAndTransfer (ctx : ExecutionContext) (newAddress : Address) (oldBalance : Nat) :
    List (W → W) :=
  [ext.createAccount newAddress, ext.incrementNonce newAddress, ext.addBalance newAddress oldBalance,
    ext.addBalance ctx.sender (-ctx.getTransferValue), ext.addBalance newAddress ctx.getTransferValue,
    ext.incrementNonce ctx.sender]

/-- The execution in `doCreate`: a collision fails, and an empty init code leaves `result`. -/
def runInitCode (ctx : ExecutionContext) (alreadyExists : Bool) (result : FastVmTransactionResult)
    (calleeEffects : SideEffects) (child : W) :
    Option (FastVmTransactionResult × List (W → W) × SideEffects) :=
  if alreadyExists then some ({ result with code := .failure, energyRemaining := 0 }, [], calleeEffects)
  else if ctx.callData.isEmpty then some (result, [], calleeEffects)
  else vm.runFork (ext.isForkSignatureSwapEnabled child) ctx.callData ctx calleeEffects child

def doCreate (callerEffects : SideEffects) (ctx : ExecutionContext) (w : W) : Option (CallOutcome W) :=
  let result := FastVmTransactionResult.of .success ctx.nrg []
  let newAddress := capabilities.computeNewContractAddress ctx.sender (ext.getNonce w ctx.sender)
  let ctx := { ctx with address := newAddress }
  let callerEffects := callerEffects.addInternalTransaction
    (InternalTransaction.contractCreateTransaction false ctx.sender (ext.getNonce w ctx.sender)
      ctx.getTransferValue ctx.callData 0 1)
  -- in case of hashing collisions; from the 0.4.0 fork an address without code is free
  let alreadyExists :=
    if ext.isFork040enabled w ∧ ext.getCode w newAddress = [] then false
    else ext.hasAccountState w newAddress
  let created := createAccountAndTransfer ext ctx newAddress (ext.getBalance w newAddress)
  let child := play created w
  let calleeEffects := SideEffects.empty.addInternalTransaction
    (InternalTransaction.contractCreateTransaction false ctx.sender (ext.getNonce child ctx.sender)
      ctx.getTransferValue ctx.callData 0 1)
  (runInitCode ext vm ctx alreadyExists result calleeEffects child).map
    fun (result, changes, calleeEffects) =>
      if result.code.toInt ≠ FastVmResultCode.success.toInt then
        rolledBack result callerEffects calleeEffects
      -- the code deposit turns a success into a failure
      else if result.energyRemaining < energyCodeDeposit then
        rolledBack { result with code := .failure, energyRemaining := 0 } callerEffects calleeEffects
      else
        ⟨{ result with output := newAddress.toList },
          created ++ changes ++ [ext.putCode newAddress result.output], callerEffects, calleeEffects⟩

/-- The end of `performCall`: the callee's side effects merge into the caller's on SUCCESS, and
only its internal transactions are added otherwise. -/
def mergeEffects (nested : CallOutcome W) : FastVmTransactionResult × List (W → W) × SideEffects :=
  if nested.result.code.toInt = FastVmResultCode.success.toInt then
    (nested.result, nested.committed, nested.callerEffects.merge nested.calleeEffects)
  else
    (nested.result, nested.committed,
      nested.callerEffects.addInternalTransactions nested.calleeEffects.internalTxs)

/-- `performCall` on a message already parsed into `ctx`, with the caller's context `prev` and side
effects `callerEffects` on top of the `Callback` stack. -/
def performCall (prev : ExecutionContext) (callerEffects : SideEffects) (ctx : ExecutionContext)
    (w : W) : Option (FastVmTransactionResult × List (W → W) × SideEffects) :=
  if ctx.depth ≥ maxCallDepth then some (FastVmTransactionResult.of .failure 0 [], [], callerEffects)
  else if ext.getBalance w ctx.sender < ctx.getTransferValue then
    some (FastVmTransactionResult.of .failure 0 [], [], callerEffects)
  else
    let called := if ctx.kind = .create then doCreate ext vm capabilities callerEffects ctx w
      else doCall ext vm prev callerEffects ctx w
    called.map mergeEffects

end Callback

/-! ## What a nested call leaves in its caller -/

/-- The caller's side effects after a nested call that did not succeed: its logs and deleted
addresses as they were, and its internal transactions with rejected ones added, in some order. -/
structure SideEffects.GainsOnlyRejected (before after : SideEffects) : Prop where
  logs : after.logs = before.logs
  deleteAccounts : after.deleteAccounts = before.deleteAccounts
  internalTxs : ∃ gained, (∀ tx ∈ gained, tx.isRejected = true) ∧
    after.internalTxs.Perm (before.internalTxs ++ gained)

theorem SideEffects.GainsOnlyRejected.of_addInternalTransactions_nil (s : SideEffects) :
    s.GainsOnlyRejected (s.addInternalTransactions []) :=
  ⟨rfl, rfl, [], by simp, by simp [SideEffects.addInternalTransactions]⟩

theorem SideEffects.GainsOnlyRejected.refl (s : SideEffects) : s.GainsOnlyRejected s :=
  ⟨rfl, rfl, [], by simp, by simp⟩

/-- The caller's newest internal transaction and all of the callee's come back rejected. -/
theorem SideEffects.GainsOnlyRejected.of_rolledBack (s calleeEffects : SideEffects)
    (record : InternalTransaction) :
    s.GainsOnlyRejected
      ((s.addInternalTransaction record).markMostRecentInternalTransactionAsRejected.addInternalTransactions
        calleeEffects.markAllInternalTransactionsAsRejected.internalTxs) := by
  rw [SideEffects.markMostRecent_addInternalTransaction]
  refine ⟨rfl, rfl, SideEffects.copyTransactionAsRejected record ::
    calleeEffects.internalTxs.map SideEffects.copyTransactionAsRejected, ?_, ?_⟩
  · simp [SideEffects.copyTransactionAsRejected]
  · simp only [SideEffects.addInternalTransactions, SideEffects.markAllInternalTransactionsAsRejected,
      List.append_assoc, List.singleton_append]
    exact (erase_concat_perm _ _).append_right _

section Outcomes
variable {W : Type} (ext : ExternalState W) (vm : FastVM W) (capabilities : Capabilities)

/-- The value transfer of a nested call: CALL moves the value, CALLCODE and DELEGATECALL none. -/
def callTransfer (ctx : ExecutionContext) : List (W → W) :=
  if ctx.kind = .call then transferBalance ext ctx else []

/-- A CALL, CALLCODE or DELEGATECALL that succeeded: the caller's state takes the value transfer,
then what the callee did, and the caller's side effects take the call's internal transaction, then
all of the callee's. -/
def CallCommitted (prev : ExecutionContext) (callerEffects : SideEffects) (ctx : ExecutionContext)
    (w : W) (result : FastVmTransactionResult) (committed : List (W → W)) (after : SideEffects) : Prop :=
  ∃ changes calleeEffects,
    runCallee ext vm (calleeContext prev ctx) ctx.address (FastVmTransactionResult.of .success ctx.nrg [])
      (play (callTransfer ext ctx) w) = some (result, changes, calleeEffects) ∧
    committed = callTransfer ext ctx ++ changes ∧
    after = (callerEffects.addInternalTransaction
      (InternalTransaction.contractCallTransaction false ctx.sender (calleeContext prev ctx).address
        (ext.getNonce w ctx.sender) ctx.getTransferValue ctx.callData 0 1)).merge calleeEffects

/-- A CREATE that succeeded: the init code ran on the new account with energy left for the code
deposit, the caller's state takes the new account, the transfer, what the init code did and the code
it returned, and the caller's side effects take the create's internal transaction, then all of the
callee's, which start with the create's second one. -/
def CreateCommitted (callerEffects : SideEffects) (ctx : ExecutionContext) (w : W)
    (result : FastVmTransactionResult) (committed : List (W → W)) (after : SideEffects) : Prop :=
  let newAddress := capabilities.computeNewContractAddress ctx.sender (ext.getNonce w ctx.sender)
  let created := createAccountAndTransfer ext ctx newAddress (ext.getBalance w newAddress)
  let record (nonce : Nat) := InternalTransaction.contractCreateTransaction false ctx.sender nonce
    ctx.getTransferValue ctx.callData 0 1
  ∃ ran changes calleeEffects,
    runInitCode ext vm { ctx with address := newAddress } false
      (FastVmTransactionResult.of .success ctx.nrg [])
      (SideEffects.empty.addInternalTransaction (record (ext.getNonce (play created w) ctx.sender)))
      (play created w) = some (ran, changes, calleeEffects) ∧
    energyCodeDeposit ≤ ran.energyRemaining ∧
    result = { ran with output := newAddress.toList } ∧
    committed = created ++ changes ++ [ext.putCode newAddress ran.output] ∧
    after = (callerEffects.addInternalTransaction (record (ext.getNonce w ctx.sender))).merge calleeEffects

end Outcomes

section Cases
variable {W : Type} {ext : ExternalState W} {vm : FastVM W} {capabilities : Capabilities}
  {prev ctx : ExecutionContext} {callerEffects : SideEffects} {w : W} {nested : CallOutcome W}

@[simp] theorem sender_calleeContext : (calleeContext prev ctx).sender = ctx.sender := by
  unfold calleeContext; split <;> rfl

@[simp] theorem nrg_calleeContext : (calleeContext prev ctx).nrg = ctx.nrg := by
  unfold calleeContext; split <;> rfl

@[simp] theorem callValue_calleeContext : (calleeContext prev ctx).callValue = ctx.callValue := by
  unfold calleeContext; split <;> rfl

@[simp] theorem callData_calleeContext : (calleeContext prev ctx).callData = ctx.callData := by
  unfold calleeContext; split <;> rfl

theorem transfer_calleeContext (ext : ExternalState W) (notCreate : ctx.kind ≠ .create) :
    (if (calleeContext prev ctx).kind ≠ .delegateCall ∧ (calleeContext prev ctx).kind ≠ .callcode then
      transferBalance ext (calleeContext prev ctx) else []) = callTransfer ext ctx := by
  cases kind : ctx.kind <;> simp [calleeContext, callTransfer, kind] at notCreate ⊢

/-- How `doCall` ends: at an incompatible destination before anything, or after the callee's
execution, rolled back or committed by its result. -/
theorem doCall_cases (notCreate : ctx.kind ≠ .create)
    (called : doCall ext vm prev callerEffects ctx w = some nested) :
    ext.destinationAddressIsSafeForFvm w ctx.address = false ∧
      nested = ⟨FastVmTransactionResult.of .incompatibleContractCall 0 [], [], callerEffects,
        SideEffects.empty⟩ ∨
    ext.destinationAddressIsSafeForFvm w ctx.address = true ∧ ∃ result changes calleeEffects,
      runCallee ext vm (calleeContext prev ctx) ctx.address (FastVmTransactionResult.of .success ctx.nrg [])
        (play (callTransfer ext ctx) w) = some (result, changes, calleeEffects) ∧
      let callerEffects := callerEffects.addInternalTransaction
        (InternalTransaction.contractCallTransaction false ctx.sender (calleeContext prev ctx).address
          (ext.getNonce w ctx.sender) ctx.getTransferValue ctx.callData 0 1)
      (result.code.toInt ≠ FastVmResultCode.success.toInt ∧
          nested = rolledBack result callerEffects calleeEffects ∨
        result.code = .success ∧
          nested = ⟨result, callTransfer ext ctx ++ changes, callerEffects, calleeEffects⟩) := by
  unfold doCall at called
  dsimp only at called
  split at called
  case isTrue incompatible => exact .inl ⟨by simpa using incompatible, (Option.some.inj called).symm⟩
  case isFalse safe =>
    obtain ⟨⟨result, changes, calleeEffects⟩, ran, settled⟩ := Option.map_eq_some_iff.mp called
    rw [transfer_calleeContext ext notCreate] at ran settled
    rw [nrg_calleeContext] at ran
    refine .inr ⟨by simpa using safe, result, changes, calleeEffects, ran, ?_⟩
    simp only [ExecutionContext.getTransferValue, sender_calleeContext, callValue_calleeContext,
      callData_calleeContext] at settled ⊢
    split at settled
    case isTrue failed => exact .inl ⟨failed, settled.symm⟩
    case isFalse succeeded =>
      exact .inr ⟨FastVmResultCode.toInt_injective (not_not.mp succeeded), settled.symm⟩

/-- How `doCreate` ends: after the init code's execution, rolled back by its result or for want of
energy for the code deposit, or committed. -/
theorem doCreate_cases (called : doCreate ext vm capabilities callerEffects ctx w = some nested) :
    let newAddress := capabilities.computeNewContractAddress ctx.sender (ext.getNonce w ctx.sender)
    let created := createAccountAndTransfer ext ctx newAddress (ext.getBalance w newAddress)
    let record (nonce : Nat) := InternalTransaction.contractCreateTransaction false ctx.sender nonce
      ctx.getTransferValue ctx.callData 0 1
    let callerEffects := callerEffects.addInternalTransaction (record (ext.getNonce w ctx.sender))
    ∃ alreadyExists ran changes calleeEffects,
      runInitCode ext vm { ctx with address := newAddress } alreadyExists
        (FastVmTransactionResult.of .success ctx.nrg [])
        (SideEffects.empty.addInternalTransaction (record (ext.getNonce (play created w) ctx.sender)))
        (play created w) = some (ran, changes, calleeEffects) ∧
      (ran.code.toInt ≠ FastVmResultCode.success.toInt ∧
          nested = rolledBack ran callerEffects calleeEffects ∨
        ran.code = .success ∧ ran.energyRemaining < energyCodeDeposit ∧
          nested = rolledBack { ran with code := .failure, energyRemaining := 0 } callerEffects
            calleeEffects ∨
        ran.code = .success ∧ energyCodeDeposit ≤ ran.energyRemaining ∧
          nested = ⟨{ ran with output := newAddress.toList },
            created ++ changes ++ [ext.putCode newAddress ran.output], callerEffects, calleeEffects⟩) := by
  intro newAddress created record callerEffects'
  unfold doCreate at called
  dsimp only at called
  obtain ⟨⟨ran, changes, calleeEffects⟩, ranInit, settled⟩ := Option.map_eq_some_iff.mp called
  refine ⟨_, ran, changes, calleeEffects, ranInit, ?_⟩
  split_ifs at settled with failed short
  · exact .inl ⟨failed, settled.symm⟩
  · exact .inr (.inl ⟨FastVmResultCode.toInt_injective (not_not.mp failed), short, settled.symm⟩)
  · exact .inr (.inr ⟨FastVmResultCode.toInt_injective (not_not.mp failed), Int64.not_lt.mp short,
      settled.symm⟩)

/-- An init code that succeeded found no account at the new address. -/
theorem runInitCode_of_success {alreadyExists : Bool} {start ran : FastVmTransactionResult}
    {calleeEffects calleeEffects' : SideEffects} {child : W} {changes : List (W → W)}
    (ranInit : runInitCode ext vm ctx alreadyExists start calleeEffects child =
      some (ran, changes, calleeEffects'))
    (success : ran.code = .success) :
    runInitCode ext vm ctx false start calleeEffects child = some (ran, changes, calleeEffects') := by
  cases alreadyExists
  case false => exact ranInit
  case true =>
    simp only [runInitCode, if_true, Option.some.injEq, Prod.mk.injEq] at ranInit
    obtain ⟨rfl, -, -⟩ := ranInit
    cases success

theorem mergeEffects_rolledBack {result : FastVmTransactionResult}
    (failed : result.code.toInt ≠ FastVmResultCode.success.toInt) (s calleeEffects : SideEffects) :
    mergeEffects (rolledBack result s calleeEffects : CallOutcome W) =
      (result, [], s.markMostRecentInternalTransactionAsRejected.addInternalTransactions
        calleeEffects.markAllInternalTransactionsAsRejected.internalTxs) := by
  simp only [mergeEffects, rolledBack]
  exact if_neg failed

theorem mergeEffects_committed (result : FastVmTransactionResult) (success : result.code = .success)
    (committed : List (W → W)) (s calleeEffects : SideEffects) :
    mergeEffects (⟨result, committed, s, calleeEffects⟩ : CallOutcome W) =
      (result, committed, s.merge calleeEffects) := by
  simp [mergeEffects, success]

/-- How `performCall` ends: refused before the call, too deep or for a balance short of the value,
or with the outcome of `doCreate` or `doCall` and the merge of its effects. -/
theorem performCall_cases {result : FastVmTransactionResult} {committed : List (W → W)}
    {after : SideEffects}
    (called : performCall ext vm capabilities prev callerEffects ctx w = some (result, committed, after)) :
    (maxCallDepth ≤ ctx.depth ∨ ext.getBalance w ctx.sender < ctx.getTransferValue) ∧
      result = FastVmTransactionResult.of .failure 0 [] ∧ committed = [] ∧ after = callerEffects ∨
    ctx.depth < maxCallDepth ∧ ctx.getTransferValue ≤ ext.getBalance w ctx.sender ∧
      ((ctx.kind = .create ∧ ∃ nested, doCreate ext vm capabilities callerEffects ctx w = some nested ∧
          mergeEffects nested = (result, committed, after)) ∨
        (ctx.kind ≠ .create ∧ ∃ nested, doCall ext vm prev callerEffects ctx w = some nested ∧
          mergeEffects nested = (result, committed, after))) := by
  unfold performCall at called
  dsimp only at called
  split_ifs at called with deep short create
  · simp only [Option.some.injEq, Prod.mk.injEq] at called
    obtain ⟨rfl, rfl, rfl⟩ := called
    exact .inl ⟨.inl deep, rfl, rfl, rfl⟩
  · simp only [Option.some.injEq, Prod.mk.injEq] at called
    obtain ⟨rfl, rfl, rfl⟩ := called
    exact .inl ⟨.inr short, rfl, rfl, rfl⟩
  all_goals refine .inr ⟨Int32.not_le.mp deep, Nat.not_lt.mp short, ?_⟩
  · exact .inl ⟨create, Option.map_eq_some_iff.mp called⟩
  · exact .inr ⟨create, Option.map_eq_some_iff.mp called⟩

end Cases

section Returns
variable {W : Type} {vm : FastVM W} (answers : vm.Answers) (ext : ExternalState W)
  (capabilities : Capabilities)
include answers

theorem runCallee_isSome (ctx : ExecutionContext) (codeAddress : Address)
    (result : FastVmTransactionResult) (child : W) :
    (runCallee ext vm ctx codeAddress result child).isSome := by
  unfold runCallee
  dsimp only
  split_ifs
  all_goals first
    | rfl
    | (obtain ⟨_, _, _, ran, -⟩ := runFork_answers answers (ext.isForkSignatureSwapEnabled child) _ ctx
         SideEffects.empty child
       rw [ran]
       rfl)

theorem runInitCode_isSome (ctx : ExecutionContext) (alreadyExists : Bool)
    (result : FastVmTransactionResult) (calleeEffects : SideEffects) (child : W) :
    (runInitCode ext vm ctx alreadyExists result calleeEffects child).isSome := by
  unfold runInitCode
  split_ifs
  · rfl
  · rfl
  · obtain ⟨_, _, _, ran, -⟩ := runFork_answers answers _ _ ctx calleeEffects child
    rw [ran]
    rfl

theorem doCall_isSome (prev : ExecutionContext) (callerEffects : SideEffects) (ctx : ExecutionContext)
    (w : W) : (doCall ext vm prev callerEffects ctx w).isSome := by
  unfold doCall
  dsimp only
  split
  · rfl
  · rw [Option.isSome_map]
    exact runCallee_isSome answers ext _ _ _ _

theorem doCreate_isSome (callerEffects : SideEffects) (ctx : ExecutionContext) (w : W) :
    (doCreate ext vm capabilities callerEffects ctx w).isSome := by
  unfold doCreate
  rw [Option.isSome_map]
  exact runInitCode_isSome answers ext _ _ _ _ _

/-- Against a native side that answers, `performCall` throws nowhere after the message is parsed. -/
theorem performCall_isSome (prev : ExecutionContext) (callerEffects : SideEffects)
    (ctx : ExecutionContext) (w : W) :
    (performCall ext vm capabilities prev callerEffects ctx w).isSome := by
  unfold performCall
  split_ifs
  · rfl
  · rfl
  · rw [Option.isSome_map]
    exact doCreate_isSome answers ext capabilities callerEffects ctx w
  · rw [Option.isSome_map]
    exact doCall_isSome answers ext prev callerEffects ctx w

end Returns

section Atomicity
variable {W : Type} {ext : ExternalState W} {vm : FastVM W} {capabilities : Capabilities}
  {prev ctx : ExecutionContext} {callerEffects after : SideEffects} {w : W} {nested : CallOutcome W}
  {result : FastVmTransactionResult} {committed : List (W → W)}

/-- A rolled-back call commits nothing and adds only rejected internal transactions. -/
theorem rolledBack_merged {ran : FastVmTransactionResult}
    (failed : ran.code.toInt ≠ FastVmResultCode.success.toInt) {record : InternalTransaction}
    {calleeEffects : SideEffects}
    (merged : mergeEffects (rolledBack ran (callerEffects.addInternalTransaction record) calleeEffects :
      CallOutcome W) = (result, committed, after)) :
    result = ran ∧ committed = [] ∧ callerEffects.GainsOnlyRejected after := by
  rw [mergeEffects_rolledBack failed, Prod.mk.injEq, Prod.mk.injEq] at merged
  obtain ⟨rfl, rfl, rfl⟩ := merged
  exact ⟨rfl, rfl, .of_rolledBack _ _ _⟩

theorem mergeEffects_doCall (notCreate : ctx.kind ≠ .create)
    (called : doCall ext vm prev callerEffects ctx w = some nested)
    (merged : mergeEffects nested = (result, committed, after)) :
    (result.code ≠ .success → committed = [] ∧ callerEffects.GainsOnlyRejected after) ∧
    (result.code = .success → CallCommitted ext vm prev callerEffects ctx w result committed after) := by
  rcases doCall_cases notCreate called with ⟨-, rfl⟩ | ⟨-, ran, changes, calleeEffects, ranCallee, settled⟩
  · -- an incompatible destination: no internal transaction, no change
    have incompatible : (FastVmTransactionResult.of .incompatibleContractCall 0 []).code.toInt ≠
        FastVmResultCode.success.toInt := by decide
    simp only [mergeEffects, if_neg incompatible, Prod.mk.injEq] at merged
    obtain ⟨rfl, rfl, rfl⟩ := merged
    exact ⟨fun _ => ⟨rfl, .of_addInternalTransactions_nil _⟩, fun success => absurd success (by decide)⟩
  rcases settled with ⟨failed, rfl⟩ | ⟨success, rfl⟩
  · obtain ⟨rfl, rfl, gains⟩ := rolledBack_merged failed merged
    exact ⟨fun _ => ⟨rfl, gains⟩, fun success => absurd (congrArg FastVmResultCode.toInt success) failed⟩
  · rw [mergeEffects_committed ran success, Prod.mk.injEq, Prod.mk.injEq] at merged
    obtain ⟨rfl, rfl, rfl⟩ := merged
    exact ⟨fun failed => absurd success failed, fun _ => ⟨changes, calleeEffects, ranCallee, rfl, rfl⟩⟩

theorem mergeEffects_doCreate (called : doCreate ext vm capabilities callerEffects ctx w = some nested)
    (merged : mergeEffects nested = (result, committed, after)) :
    (result.code ≠ .success → committed = [] ∧ callerEffects.GainsOnlyRejected after) ∧
    (result.code = .success →
      CreateCommitted ext vm capabilities callerEffects ctx w result committed after) := by
  obtain ⟨alreadyExists, ran, changes, calleeEffects, ranInit, settled⟩ := doCreate_cases called
  rcases settled with ⟨failed, rfl⟩ | ⟨-, -, rfl⟩ | ⟨success, deposit, rfl⟩
  · obtain ⟨rfl, rfl, gains⟩ := rolledBack_merged failed merged
    exact ⟨fun _ => ⟨rfl, gains⟩, fun success => absurd (congrArg FastVmResultCode.toInt success) failed⟩
  · -- short of energy for the code deposit, the create fails
    obtain ⟨rfl, rfl, gains⟩ :=
      rolledBack_merged (show FastVmResultCode.failure.toInt ≠ FastVmResultCode.success.toInt by decide)
        merged
    exact ⟨fun _ => ⟨rfl, gains⟩, fun success => by cases success⟩
  · simp only [mergeEffects] at merged
    rw [if_pos (congrArg FastVmResultCode.toInt success), Prod.mk.injEq, Prod.mk.injEq] at merged
    obtain ⟨rfl, rfl, rfl⟩ := merged
    exact ⟨fun failed => absurd success failed, fun _ =>
      ⟨ran, changes, calleeEffects, runInitCode_of_success ranInit success, deposit, rfl, rfl, rfl⟩⟩

/-- A CALL that does not succeed marks rejected the first of the caller's internal transactions equal
to its own record, not the record itself: when an earlier identical call left one, that one moves
behind every transaction recorded after it, ahead of the rejected copy. -/
theorem failed_call_moves_equal_internal_transaction (ext : ExternalState W) (vm : FastVM W)
    (capabilities : Capabilities) (prev : ExecutionContext) (callerEffects : SideEffects)
    (ctx : ExecutionContext) (w : W) {pre post : List InternalTransaction} (notCreate : ctx.kind ≠ .create) :
    let record := InternalTransaction.contractCallTransaction false ctx.sender (calleeContext prev ctx).address
      (ext.getNonce w ctx.sender) ctx.getTransferValue ctx.callData 0 1
    callerEffects.internalTxs = pre ++ record :: post → record ∉ pre →
    ext.destinationAddressIsSafeForFvm w ctx.address = true → ctx.depth < maxCallDepth →
    ctx.getTransferValue ≤ ext.getBalance w ctx.sender →
    performCall ext vm capabilities prev callerEffects ctx w = some (result, committed, after) →
    result.code ≠ .success →
    ∃ calleeTxs, after.internalTxs =
      pre ++ post ++ [record, SideEffects.copyTransactionAsRejected record] ++ calleeTxs := by
  intro record held first safe shallow funded called failed
  simp only [record] at held first ⊢
  rcases performCall_cases called with
    ⟨refused, -⟩ | ⟨-, -, ⟨create, -⟩ | ⟨-, nested, done, merged⟩⟩
  · -- the call is neither too deep nor short of the value
    rcases refused with deep | short
    · exact absurd deep (Int32.not_le.mpr shallow)
    · exact absurd short (Nat.not_lt.mpr funded)
  · exact absurd create notCreate
  · rcases doCall_cases notCreate done with
      ⟨incompatible, -⟩ | ⟨-, ran, changes, calleeEffects, -, ⟨failedRun, rfl⟩ | ⟨success, rfl⟩⟩
    · rw [safe] at incompatible
      cases incompatible
    · rw [mergeEffects_rolledBack failedRun, Prod.mk.injEq, Prod.mk.injEq] at merged
      obtain ⟨-, -, rfl⟩ := merged
      refine ⟨calleeEffects.internalTxs.map SideEffects.copyTransactionAsRejected, ?_⟩
      simp only [SideEffects.markMostRecent_addInternalTransaction, SideEffects.addInternalTransactions,
        SideEffects.markAllInternalTransactionsAsRejected, held]
      rw [erase_first_concat first post]
      simp only [List.append_assoc, List.cons_append, List.nil_append]
    · rw [mergeEffects_committed ran success, Prod.mk.injEq, Prod.mk.injEq] at merged
      obtain ⟨rfl, -, -⟩ := merged
      exact absurd success failed

end Atomicity

/-! ## A call repeated after a nested one -/

/-- A world in which every address holds the code of one STOP. -/
def deployedState : ExternalState Unit :=
  { acceptingState with hasAccountState := fun _ _ => true, getCode := fun _ _ => [0] }

/-- A native run that reverts at once. -/
def revertingVm : FastVM Unit := ⟨fun _ _ _ _ => ⟨⟨EvmStatusCode.revert.toInt, 0, []⟩, [], id⟩⟩

/-- A CALL of `destination` by `sender`, one frame deep, with no value and no data. -/
def plainCall (sender destination : Address) : ExecutionContext where
  address := destination
  origin := sender
  sender := sender
  nrgPrice := DataWord.zero
  nrg := 100000
  callValue := DataWord.zero
  callData := []
  depth := 1
  kind := .call
  flags := 0
  blockCoinbase := sender
  blockNumber := 0
  blockTimestamp := 0
  blockNrgLimit := 0
  blockDifficulty := DataWord.zero
  isCreate := false
  txHash := []

/-- The side effects of `caller` after a CALL of `callee` in which the callee called `third`: the
record of the call, then the callee's own. -/
def afterNestedCall (caller callee third : Address) : SideEffects :=
  ⟨∅, [InternalTransaction.contractCallTransaction false caller callee 0 0 [] 0 1,
    InternalTransaction.contractCallTransaction false callee third 0 0 [] 0 1], []⟩

theorem reverted_call_moves_earlier_call :
    ∃ result committed after,
      performCall deployedState revertingVm ⟨fun sender _ => sender⟩
        (plainCall (.replicate 32 0) (.replicate 32 1))
        (afterNestedCall (.replicate 32 1) (.replicate 32 2) (.replicate 32 3))
        (plainCall (.replicate 32 1) (.replicate 32 2)) () = some (result, committed, after) ∧
      ∃ calleeTxs, after.internalTxs =
        [InternalTransaction.contractCallTransaction false (.replicate 32 2) (.replicate 32 3) 0 0 [] 0 1,
          InternalTransaction.contractCallTransaction false (.replicate 32 1) (.replicate 32 2) 0 0 [] 0 1,
          InternalTransaction.contractCallTransaction true (.replicate 32 1) (.replicate 32 2) 0 0 [] 0 1] ++
          calleeTxs :=
  ⟨_, _, _, rfl, failed_call_moves_equal_internal_transaction deployedState revertingVm
    ⟨fun sender _ => sender⟩ (plainCall (.replicate 32 0) (.replicate 32 1))
    (afterNestedCall (.replicate 32 1) (.replicate 32 2) (.replicate 32 3))
    (plainCall (.replicate 32 1) (.replicate 32 2)) () (by decide)
    (show _ = [] ++ _ :: _ from rfl) List.not_mem_nil rfl (by decide) (by decide) rfl (by decide)⟩

-- The record of the first call of the callee now follows the record of the callee's own call.
example :
    (performCall deployedState revertingVm ⟨fun sender _ => sender⟩
      (plainCall (.replicate 32 0) (.replicate 32 1))
      (afterNestedCall (.replicate 32 1) (.replicate 32 2) (.replicate 32 3))
      (plainCall (.replicate 32 1) (.replicate 32 2)) ()).map (fun called => called.2.2.internalTxs) =
    some [InternalTransaction.contractCallTransaction false (.replicate 32 2) (.replicate 32 3) 0 0 [] 0 1,
      InternalTransaction.contractCallTransaction false (.replicate 32 1) (.replicate 32 2) 0 0 [] 0 1,
      InternalTransaction.contractCallTransaction true (.replicate 32 1) (.replicate 32 2) 0 0 [] 0 1] := by
  decide

end AionFastVM.Fvm
