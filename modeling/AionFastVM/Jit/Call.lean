import AionFastVM.Jit.Instruction
import AionFastVM.Jni.Context
import Mathlib.Data.Nat.Bitwise

/-!
# Nested calls from compiled code

The kind a CALL-like instruction or CREATE passes, the message `call_v2` builds, and the word it
returns: the callee's gas left, with the top bit set on failure.
-/

namespace AionFastVM.Library

theorem int64_nonneg_iff (x : Int64) : 0 ≤ x ↔ x.toBitVec.toNat < 2 ^ 63 := by
  have zero : (0 : Int64).toInt = 0 := by decide
  rw [Int64.le_iff_toInt_le, zero, ← Int64.toInt_toBitVec x, BitVec.toInt_eq_toNat_cond]
  have := x.toBitVec.isLt
  split <;> omega

theorem toNat_minValue : Int64.minValue.toBitVec.toNat = 2 ^ 63 := by decide

theorem toNat_or_minValue {x : Int64} (nonneg : 0 ≤ x) :
    (x ||| Int64.minValue).toBitVec.toNat = x.toBitVec.toNat + 2 ^ 63 := by
  rw [Int64.toBitVec_or, BitVec.toNat_or, toNat_minValue,
    Nat.or_two_pow_eq_add_of_lt ((int64_nonneg_iff x).mp nonneg)]

theorem or_minValue_neg {x : Int64} (nonneg : 0 ≤ x) : ¬ 0 ≤ x ||| Int64.minValue := by
  rw [int64_nonneg_iff, toNat_or_minValue nonneg]
  omega

theorem or_minValue_sub {x : Int64} (nonneg : 0 ≤ x) :
    (x ||| Int64.minValue) - Int64.minValue = x := by
  apply Int64.toBitVec_inj.mp
  apply BitVec.eq_of_toNat_eq
  have below := (int64_nonneg_iff x).mp nonneg
  rw [Int64.toBitVec_sub, BitVec.toNat_sub, toNat_or_minValue nonneg, toNat_minValue]
  omega

end AionFastVM.Library

namespace AionFastVM.Jit
open AionFastVM.Library AionFastVM.Jni

def evmCall : Int32 := 0
def evmDelegatecall : Int32 := 1
def evmCallcode : Int32 := 2
def evmCreate : Int32 := 3

def evmStaticcall : Int32 := evmCreate + 1

def evmStatic : UInt32 := 1

def evmCallFailure : Int64 := 0x8000000000000000

theorem evmCallFailure_eq : evmCallFailure = Int64.minValue := by decide

def callKind : Instruction → Option Int32
  | .create => some evmCreate
  | .call => some evmCall
  | .callcode => some evmCallcode
  | .delegatecall => some evmDelegatecall
  | .staticcall => some evmStaticcall
  | _ => none

def callMessage (currentMsg : EvmMessage) (kind : Int32) (gas : Int64) (address : Address)
    (value : DataWord) (inputData : List UInt8) : EvmMessage :=
  let caller := if kind ≠ evmDelegatecall then currentMsg.address else currentMsg.caller
  let value := if kind ≠ evmDelegatecall then value else currentMsg.value
  if kind = evmStaticcall then
    ⟨address, caller, value, inputData, gas, currentMsg.depth + 1, evmCall,
      currentMsg.flags ||| evmStatic⟩
  else ⟨address, caller, value, inputData, gas, currentMsg.depth + 1, kind, currentMsg.flags⟩

def callReturn (result : EvmResult) : Int64 :=
  if result.statusCode ≠ EvmStatusCode.success.toInt then result.gasLeft ||| evmCallFailure
  else result.gasLeft

def decodeCallResult (r : Int64) : Bool × Int64 :=
  let ret := decide (0 ≤ r)
  let rmagic : Int64 := if ret then 0 else evmCallFailure
  (ret, r - rmagic)

theorem kind_callMessage {inst : Instruction} {kind : Int32} (picked : callKind inst = some kind)
    (currentMsg : EvmMessage) (gas : Int64) (address : Address) (value : DataWord)
    (inputData : List UInt8) :
    ∃ k : TransactionKind, (callMessage currentMsg kind gas address value inputData).kind =
      k.intValue ∧ (k = .create ↔ inst = .create) := by
  cases inst <;> simp only [callKind, reduceCtorEq, Option.some.injEq] at picked <;> subst picked
  case create => exact ⟨.create, by simp [callMessage, evmCreate, evmStaticcall]; rfl, by simp⟩
  case call => exact ⟨.call, by simp [callMessage, evmCall, evmStaticcall]; rfl, by simp⟩
  case callcode => exact ⟨.callcode, by simp [callMessage, evmCallcode, evmStaticcall]; rfl, by simp⟩
  case delegatecall =>
    exact ⟨.delegateCall, by simp [callMessage, evmDelegatecall, evmStaticcall]; rfl, by simp⟩
  case staticcall => exact ⟨.call, by simp [callMessage]; rfl, by simp⟩

theorem decodeCallResult_of_nonneg {r : Int64} (nonneg : 0 ≤ r) : decodeCallResult r = (true, r) := by
  simp [decodeCallResult, nonneg]

theorem decodeCallResult_failure {gas : Int64} (nonneg : 0 ≤ gas) :
    decodeCallResult (gas ||| evmCallFailure) = (false, gas) := by
  rw [evmCallFailure_eq]
  simp [decodeCallResult, or_minValue_neg nonneg, evmCallFailure_eq, or_minValue_sub nonneg]

theorem decodeCallResult_callReturn {result : EvmResult} (nonneg : 0 ≤ result.gasLeft) :
    decodeCallResult (callReturn result) =
      (decide (result.statusCode = EvmStatusCode.success.toInt), result.gasLeft) := by
  by_cases success : result.statusCode = EvmStatusCode.success.toInt
  · rw [callReturn, if_neg (not_not.mpr success), decodeCallResult_of_nonneg nonneg]
    simp [success]
  · rw [callReturn, if_pos success, decodeCallResult_failure nonneg]
    simp [success]

end AionFastVM.Jit
