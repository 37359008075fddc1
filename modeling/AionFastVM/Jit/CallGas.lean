import AionFastVM.Jit.Call
import AionFastVM.Library.Budget

/-!
# The gas of CALL and CREATE

The code of CALL, CALLCODE, DELEGATECALL, STATICCALL and CREATE once the instruction's cost block
is committed and its memory paid for.
-/

namespace AionFastVM.Jit
open AionFastVM.Library AionFastVM.Jni

namespace JITSchedule

def valueTransferGas : Int := 9000
def callStipend : Int := 2300
def callNewAccount : Int := 25000

end JITSchedule

open JITSchedule

def gasMax : Int := 2 ^ 63 - 1

def gasCheck (gas cost : Int) : Option Int := spend gas [cost]

def wordCost (cost : Nat) : Int := if (cost : Int) > gasMax then gasMax else cost

def wordValue (word : DataWord) : Nat := beValue word.toList

structure CallHost where
  accountExists : Bool
  balance : Nat
  call : EvmMessage → EvmResult

structure CallOperands where
  callGas : Nat
  address : Address
  value : DataWord
  input : List UInt8

def callWrapper (host : CallHost) (currentMsg : EvmMessage) (kind : Int32) (gas : Int64)
    (address : Address) (value : DataWord) (inputData : List UInt8) : Int64 × Option EvmMessage :=
  let msg := callMessage currentMsg kind gas address value inputData
  let fail := (gas ||| evmCallFailure, none)
  if currentMsg.depth.toInt < 1024 then
    if kind ≠ evmDelegatecall ∧ wordValue value ≠ 0 ∧ host.balance < wordValue value then fail
    else (callReturn (host.call msg), some msg)
  else fail

variable (rev : Revision) (staticCall : Bool)

def transferGas (inst : Instruction) : Int :=
  if inst = .call ∧ staticCall then gasMax
  else if Revision.aion ≤ rev then 15000 else valueTransferGas

def penaltyCheck (inst : Instruction) (accountExists noTransfer : Bool) (gas : Int) : Option Int :=
  if inst = .call then
    gasCheck gas
      (if accountExists || (decide (Revision.spuriousDragon ≤ rev) && noTransfer) then 0
      else callNewAccount)
  else some gas

def capCallGas (callGas : Nat) (gas : Int) : Nat :=
  if Revision.tangerineWhistle ≤ rev then min callGas (gas - gas / 64).toNat else callGas

/-- The code of CALL, CALLCODE, DELEGATECALL and STATICCALL from the commit of their cost block
and the checks of their memory on. -/
def callResume (inst : Instruction) (kind : Int32) (currentMsg : EvmMessage) (host : CallHost)
    (operands : CallOperands) (gas : Int) : Option (Int × Option EvmMessage) := do
  let hasValue := inst = .call ∨ inst = .callcode
  let value := if hasValue then operands.value else DataWord.zero
  let noTransfer := wordValue value = 0
  let gas ← gasCheck gas (if noTransfer then 0 else transferGas rev staticCall inst)
  let gas ← penaltyCheck rev inst host.accountExists noTransfer gas
  let callGas := capCallGas rev operands.callGas gas
  let gas ← gasCheck gas (wordCost callGas)
  let stipend : Int := if noTransfer then 0 else callStipend
  -- the declared gas cut to 64 bits, and the stipend added, wrap as one sum would
  let answer := callWrapper host currentMsg kind (Int64.ofInt (callGas + stipend))
    operands.address value operands.input
  pure (gas + (decodeCallResult answer.1).2.toInt, answer.2)

/-- The code of CREATE from the commit of its cost block on. The address it hands over is
undefined; it is `address` here. -/
def createResume (currentMsg : EvmMessage) (host : CallHost) (operands : CallOperands)
    (gas : Int) : Int × Option EvmMessage :=
  let gasKept := if Revision.tangerineWhistle ≤ rev then gas / 64 else 0
  let createGas := gas - gasKept
  let answer := callWrapper host currentMsg evmCreate (Int64.ofInt createGas) operands.address
    operands.value operands.input
  ((decodeCallResult answer.1).2.toInt + gasKept, answer.2)

theorem gasCheck_eq_some {gas cost left : Int} :
    gasCheck gas cost = some left ↔ 0 ≤ gas - cost ∧ left = gas - cost := by
  rw [gasCheck, spend_cons]
  split
  · simp only [reduceCtorEq, false_iff, not_and]
    omega
  · simp only [spend_nil, Option.some.injEq]
    omega

theorem wordCost_eq {cost : Nat} {gas : Int} (below : gas < gasMax) (paid : wordCost cost ≤ gas) :
    wordCost cost = cost := by
  unfold wordCost at paid ⊢
  split at paid <;> omega

def CallHost.GivesBack (host : CallHost) : Prop :=
  ∀ msg : EvmMessage, 0 ≤ msg.gas → 0 ≤ (host.call msg).gasLeft ∧ (host.call msg).gasLeft ≤ msg.gas

@[simp] theorem gas_callMessage (currentMsg : EvmMessage) (kind : Int32) (gas : Int64)
    (address : Address) (value : DataWord) (inputData : List UInt8) :
    (callMessage currentMsg kind gas address value inputData).gas = gas := by
  by_cases static : kind = evmStaticcall <;> simp [callMessage, static]

theorem callWrapper_gasLeft {host : CallHost} (gives : host.GivesBack) (currentMsg : EvmMessage)
    (kind : Int32) {gas : Int64} (funded : 0 ≤ gas) (address : Address) (value : DataWord)
    (inputData : List UInt8) :
    0 ≤ (decodeCallResult (callWrapper host currentMsg kind gas address value inputData).1).2 ∧
      (decodeCallResult (callWrapper host currentMsg kind gas address value inputData).1).2 ≤
        gas := by
  have answered := gives (callMessage currentMsg kind gas address value inputData)
    (by rwa [gas_callMessage])
  rw [gas_callMessage] at answered
  unfold callWrapper
  split
  · split
    · rw [decodeCallResult_failure funded]
      exact ⟨funded, Int64.le_refl gas⟩
    · rw [decodeCallResult_callReturn answered.1]
      exact answered
  · rw [decodeCallResult_failure funded]
    exact ⟨funded, Int64.le_refl gas⟩

theorem callWrapper_gasLeft_toInt {host : CallHost} (gives : host.GivesBack)
    (currentMsg : EvmMessage) (kind : Int32) {handed : Int} (funded : 0 ≤ handed)
    (fits : handed < 2 ^ 63) (address : Address) (value : DataWord) (inputData : List UInt8) :
    0 ≤ (decodeCallResult
        (callWrapper host currentMsg kind (Int64.ofInt handed) address value inputData).1).2.toInt ∧
      (decodeCallResult
        (callWrapper host currentMsg kind (Int64.ofInt handed) address value inputData).1).2.toInt ≤
        handed := by
  have exact : (Int64.ofInt handed).toInt = handed := Int64.toInt_ofInt_of_le (by omega) fits
  have nonneg : (0 : Int64) ≤ Int64.ofInt handed := by
    rw [Int64.le_iff_toInt_le, exact]
    exact funded
  obtain ⟨low, high⟩ := callWrapper_gasLeft gives currentMsg kind nonneg address value inputData
  rw [Int64.le_iff_toInt_le] at low high
  rw [exact] at high
  exact ⟨low, high⟩

theorem callStipend_le_transferGas (inst : Instruction) :
    callStipend ≤ transferGas rev staticCall inst := by
  unfold transferGas callStipend valueTransferGas gasMax
  split
  · omega
  · split <;> omega

section
variable {rev staticCall}

theorem wordValue_zero : wordValue DataWord.zero = 0 := by decide

theorem penaltyCheck_le {inst : Instruction} {accountExists noTransfer : Bool} {gas left : Int}
    (funded : 0 ≤ gas) (paid : penaltyCheck rev inst accountExists noTransfer gas = some left) :
    0 ≤ left ∧ left ≤ gas := by
  unfold penaltyCheck at paid
  split at paid
  · have penalty : (0 : Int) ≤
        if accountExists || (decide (Revision.spuriousDragon ≤ rev) && noTransfer) then 0
        else callNewAccount := by
      unfold callNewAccount
      split <;> omega
    rw [gasCheck_eq_some] at paid
    omega
  · simp only [Option.some.injEq] at paid
    omega

theorem callResume_le {inst : Instruction} {kind : Int32} {currentMsg : EvmMessage}
    {host : CallHost} (gives : host.GivesBack) {operands : CallOperands} {gas after : Int}
    {sent : Option EvmMessage} (funded : 0 ≤ gas) (below : gas < gasMax)
    (ran : callResume rev staticCall inst kind currentMsg host operands gas = some (after, sent)) :
    0 ≤ after ∧ after ≤ gas := by
  simp only [callResume, Option.bind_eq_bind, Option.bind_eq_some_iff, Option.pure_def,
    Option.some.injEq, Prod.mk.injEq] at ran
  obtain ⟨transferred, transferPaid, penalized, penaltyPaid, handedOver, handedPaid, same, -⟩ := ran
  subst same
  generalize (if inst = .call ∨ inst = .callcode then operands.value else DataWord.zero) = value
    at transferPaid penaltyPaid handedPaid ⊢
  generalize capCallGas rev operands.callGas penalized = callGas at handedPaid ⊢
  have paidFor := callStipend_le_transferGas rev staticCall inst
  unfold callStipend at paidFor
  rw [gasCheck_eq_some] at transferPaid handedPaid
  have transferLe : 0 ≤ transferred ∧ transferred ≤ gas := by
    split at transferPaid <;> omega
  have penaltyLe := penaltyCheck_le transferLe.1 penaltyPaid
  have exact := wordCost_eq (by omega) (show wordCost callGas ≤ penalized by omega)
  rw [exact] at handedPaid
  have stipend : (0 : Int) ≤ (if wordValue value = 0 then 0 else callStipend) ∧
      (if wordValue value = 0 then 0 else callStipend) ≤
        (if wordValue value = 0 then 0 else transferGas rev staticCall inst) := by
    unfold callStipend
    split <;> omega
  have back := callWrapper_gasLeft_toInt gives currentMsg kind
    (show 0 ≤ (callGas : Int) + (if wordValue value = 0 then 0 else callStipend) by omega)
    (by unfold gasMax at below; omega) operands.address value operands.input
  omega

theorem createResume_le {currentMsg : EvmMessage} {host : CallHost} (gives : host.GivesBack)
    (operands : CallOperands) {gas : Int} (funded : 0 ≤ gas) (below : gas < gasMax) :
    0 ≤ (createResume rev currentMsg host operands gas).1 ∧
      (createResume rev currentMsg host operands gas).1 ≤ gas := by
  unfold createResume
  have kept : 0 ≤ (if Revision.tangerineWhistle ≤ rev then gas / 64 else 0) ∧
      (if Revision.tangerineWhistle ≤ rev then gas / 64 else 0) ≤ gas := by
    split <;> omega
  have back := callWrapper_gasLeft_toInt gives currentMsg evmCreate
    (show 0 ≤ gas - (if Revision.tangerineWhistle ≤ rev then gas / 64 else 0) by omega)
    (by unfold gasMax at below; omega) operands.address operands.value operands.input
  dsimp only
  omega

def isStatic (flags : UInt32) : Bool := flags &&& evmStatic != 0

theorem isStatic_or_evmStatic (flags : UInt32) : isStatic (flags ||| evmStatic) = true := by
  rw [isStatic, bne_iff_ne, ne_eq]
  intro cleared
  have lowBit := congrArg (fun x : UInt32 => x.toNat.testBit 0) cleared
  simp [evmStatic, UInt32.toNat_and, UInt32.toNat_or] at lowBit

theorem isStatic_callMessage {currentMsg : EvmMessage} (static : isStatic currentMsg.flags = true)
    (kind : Int32) (gas : Int64) (address : Address) (value : DataWord) (inputData : List UInt8) :
    isStatic (callMessage currentMsg kind gas address value inputData).flags = true := by
  by_cases staticCall : kind = evmStaticcall
  · simpa [callMessage, staticCall] using isStatic_or_evmStatic currentMsg.flags
  · simpa [callMessage, staticCall] using static

theorem callWrapper_sent {host : CallHost} {currentMsg : EvmMessage} {kind : Int32} {gas : Int64}
    {address : Address} {value : DataWord} {inputData : List UInt8} {msg : EvmMessage}
    (sent : (callWrapper host currentMsg kind gas address value inputData).2 = some msg) :
    msg = callMessage currentMsg kind gas address value inputData := by
  unfold callWrapper at sent
  split at sent
  · split at sent
    · cases sent
    · exact (Option.some.inj sent).symm
  · cases sent

theorem callResume_static_value {kind : Int32} {currentMsg : EvmMessage} {host : CallHost}
    {operands : CallOperands} {gas : Int} (below : gas < gasMax)
    (withValue : wordValue operands.value ≠ 0) :
    callResume rev true .call kind currentMsg host operands gas = none := by
  have infinite : transferGas rev true .call = gasMax := by simp [transferGas]
  have aborts : gasCheck gas gasMax = none := by
    rw [gasCheck, spend_cons, if_pos (by omega)]
  simp [callResume, withValue, infinite, aborts]

theorem callResume_static_sent {inst : Instruction} {kind : Int32} (picked : callKind inst = some kind)
    (notCreate : inst ≠ .create) {currentMsg : EvmMessage} (static : isStatic currentMsg.flags = true)
    {host : CallHost} {operands : CallOperands} {gas after : Int} {msg : EvmMessage}
    (below : gas < gasMax)
    (ran : callResume rev true inst kind currentMsg host operands gas = some (after, some msg)) :
    isStatic msg.flags = true ∧ msg.kind ≠ evmCreate ∧ (msg.kind = evmCall → wordValue msg.value = 0) := by
  have valueFree : inst = .call → wordValue operands.value = 0 := by
    intro isCall
    subst isCall
    by_contra withValue
    rw [callResume_static_value below withValue] at ran
    cases ran
  simp only [callResume, Option.bind_eq_bind, Option.bind_eq_some_iff, Option.pure_def,
    Option.some.injEq, Prod.mk.injEq] at ran
  obtain ⟨_, _, _, _, _, _, _, sentMsg⟩ := ran
  rw [callWrapper_sent sentMsg]
  refine ⟨isStatic_callMessage static .., ?_⟩
  cases inst <;> simp only [callKind, reduceCtorEq, Option.some.injEq] at picked <;> subst picked
  case create => exact absurd rfl notCreate
  case call => simp [callMessage, evmCall, evmCreate, evmDelegatecall, evmStaticcall, valueFree rfl]
  case callcode => simp [callMessage, evmCall, evmCreate, evmCallcode, evmDelegatecall, evmStaticcall]
  case delegatecall => simp [callMessage, evmCall, evmCreate, evmDelegatecall, evmStaticcall]
  case staticcall => simp [callMessage, evmCall, evmCreate, evmDelegatecall, evmStaticcall, wordValue_zero]

end

end AionFastVM.Jit
