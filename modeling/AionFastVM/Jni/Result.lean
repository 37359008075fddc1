import AionFastVM.Jni.Message
import AionFastVM.Jit.Call

/-!
# Results across the Java/native boundary, and the nested-call round trip

`none` stands where Java throws.
-/

namespace AionFastVM.Jni
open AionFastVM.Library AionFastVM.Jit

inductive FastVmResultCode where
  | success
  | invalidNonce
  | invalidNrgLimit
  | insufficientBalance
  | failure
  | outOfNrg
  | badInstruction
  | badJumpDestination
  | stackOverflow
  | stackUnderflow
  | revert
  | staticModeError
  | incompatibleContractCall
  | abort
  | rejectDeploy
  | vmRejected
  | vmInternalError
  deriving DecidableEq, Repr

namespace FastVmResultCode

def toInt : FastVmResultCode → Int32
  | success => 0
  | invalidNonce => 101
  | invalidNrgLimit => 102
  | insufficientBalance => 103
  | failure => 1
  | outOfNrg => 2
  | badInstruction => 3
  | badJumpDestination => 4
  | stackOverflow => 5
  | stackUnderflow => 6
  | revert => 7
  | staticModeError => 8
  | incompatibleContractCall => 9
  | abort => 11
  | rejectDeploy => 104
  | vmRejected => -1
  | vmInternalError => -2

def values : List FastVmResultCode :=
  [success, invalidNonce, invalidNrgLimit, insufficientBalance, failure, outOfNrg, badInstruction,
    badJumpDestination, stackOverflow, stackUnderflow, revert, staticModeError,
    incompatibleContractCall, abort, rejectDeploy, vmRejected, vmInternalError]

def fromInt (code : Int32) : Option FastVmResultCode := values.find? (·.toInt == code)

@[simp] theorem fromInt_toInt (code : FastVmResultCode) : fromInt code.toInt = some code := by
  cases code <;> rfl

theorem toInt_injective : Function.Injective toInt := by
  intro first second same
  have read := fromInt_toInt first
  rwa [same, fromInt_toInt, Option.some.injEq, eq_comm] at read

theorem fromInt_evmStatusCode (status : EvmStatusCode) :
    ∃ code, fromInt status.toInt = some code ∧ code.toInt = status.toInt := by
  cases status
  case success => exact ⟨success, rfl, rfl⟩
  case failure => exact ⟨failure, rfl, rfl⟩
  case outOfGas => exact ⟨outOfNrg, rfl, rfl⟩
  case badInstruction => exact ⟨badInstruction, rfl, rfl⟩
  case badJumpDestination => exact ⟨badJumpDestination, rfl, rfl⟩
  case stackOverflow => exact ⟨stackOverflow, rfl, rfl⟩
  case stackUnderflow => exact ⟨stackUnderflow, rfl, rfl⟩
  case revert => exact ⟨revert, rfl, rfl⟩
  case staticModeError => exact ⟨staticModeError, rfl, rfl⟩
  case rejected => exact ⟨vmRejected, rfl, rfl⟩
  case internalError => exact ⟨vmInternalError, rfl, rfl⟩

end FastVmResultCode

structure FastVmTransactionResult where
  code : FastVmResultCode
  output : List UInt8
  energyRemaining : Int64

namespace FastVmTransactionResult

def checkNegativeEnergy (energyRemaining : Int64) : Int64 :=
  if energyRemaining ≥ 0 then energyRemaining else 0

def of (code : FastVmResultCode) (energyRemaining : Int64) (output : List UInt8) :
    FastVmTransactionResult :=
  ⟨code, output, checkNegativeEnergy energyRemaining⟩

def toBytes (r : FastVmTransactionResult) : List UInt8 :=
  ByteBuffer.putInt r.code.toInt ++ ByteBuffer.putLong r.energyRemaining ++
    ByteBuffer.putInt (Int32.ofNat r.output.length) ++ r.output

def fromBytes : Decoder FastVmTransactionResult := do
  let code ← Decoder.ofOption (FastVmResultCode.fromInt (← ByteBuffer.getInt))
  let energyRemaining ← ByteBuffer.getLong
  let output ← ByteBuffer.getBytes (← ByteBuffer.getInt)
  pure (of code energyRemaining output)

theorem of_of_nonneg {code : FastVmResultCode} {energyRemaining : Int64} (nonneg : 0 ≤ energyRemaining)
    (output : List UInt8) : of code energyRemaining output = ⟨code, output, energyRemaining⟩ := by
  simp [of, checkNegativeEnergy, nonneg]

theorem energyRemaining_of_nonneg (code : FastVmResultCode) (energyRemaining : Int64)
    (output : List UInt8) : 0 ≤ (of code energyRemaining output).energyRemaining := by
  by_cases nonneg : 0 ≤ energyRemaining
  · simp [of, checkNegativeEnergy, nonneg]
  · simp only [of, checkNegativeEnergy, ge_iff_le, if_neg nonneg]
    exact Int64.le_refl 0

end FastVmTransactionResult

def parseResult : Decoder EvmResult := do
  let statusCode ← readInt
  let gasLeft ← readLong
  let outputSize ← readInt
  let output ← Decoder.bytes outputSize.toNat
  pure ⟨statusCode.toInt32, gasLeft.toInt64, output⟩

def encodeResult (result : EvmResult) : List UInt8 :=
  writeInt result.statusCode.toUInt32 ++ writeLong result.gasLeft.toUInt64 ++
    writeInt (UInt32.ofNat result.output.length) ++ result.output

theorem parseResult_toBytes (r : FastVmTransactionResult) (fits : r.output.length < 2 ^ 31)
    (rest : List UInt8) :
    parseResult (r.toBytes ++ rest) = some (⟨r.code.toInt, r.energyRemaining, r.output⟩, rest) := by
  simp only [parseResult, FastVmTransactionResult.toBytes, List.append_assoc, readInt_bind,
    readLong_bind, Decoder.bytes_bind _ (toNat_length_field fits).symm, Int32.toInt32_toUInt32,
    Int64.toInt64_toUInt64, Decoder.pure_apply]

theorem fromBytes_encodeResult {e : EvmResult} {code : FastVmResultCode}
    (codeIs : e.statusCode = code.toInt) (fits : e.output.length < 2 ^ 31) (rest : List UInt8) :
    FastVmTransactionResult.fromBytes (encodeResult e ++ rest) =
      some (FastVmTransactionResult.of code e.gasLeft e.output, rest) := by
  obtain ⟨nonneg, exact⟩ := toInt32_ofNat_length fits
  simp only [FastVmTransactionResult.fromBytes, encodeResult, List.append_assoc,
    getInt_bind_writeInt, Int32.toInt32_toUInt32, codeIs, FastVmResultCode.fromInt_toInt,
    Decoder.ofOption_some_bind, getLong_bind_writeLong, Int64.toInt64_toUInt64,
    ByteBuffer.getBytes_bind nonneg exact, Decoder.pure_apply]

namespace Callback

def internalError : FastVmTransactionResult := FastVmTransactionResult.of .vmInternalError 0 []

def call (prev : ExecutionContext) (handle : ExecutionContext → Option FastVmTransactionResult)
    (message : List UInt8) : List UInt8 :=
  (((parseMessage prev message).bind fun parsed => handle parsed.1).getD internalError).toBytes

end Callback

def call (callback : List UInt8 → List UInt8) (msg : EvmMessage) : Option EvmResult :=
  (parseResult (callback (encodeMessage msg))).map Prod.fst

def receivedContext (prev : ExecutionContext) (m : EvmMessage) (k : TransactionKind) :
    ExecutionContext :=
  { prev with address := m.address, sender := m.caller, nrg := m.gas, callValue := m.value,
              callData := m.input, depth := m.depth, kind := k, flags := m.flags.toInt32,
              isCreate := k == .create }

theorem input_callMessage (currentMsg : EvmMessage) (kind : Int32) (gas : Int64) (address : Address)
    (value : DataWord) (inputData : List UInt8) :
    (callMessage currentMsg kind gas address value inputData).input = inputData := by
  unfold callMessage
  dsimp only
  split <;> rfl

theorem parseMessage_callMessage (prev : ExecutionContext)
    (priced : prev.nrgPrice = DataWord.fromLong prev.nrgPrice.toLong) (currentMsg : EvmMessage)
    {inst : Instruction} {kind : Int32} (picked : callKind inst = some kind) (gas : Int64)
    (address : Address) (value : DataWord) {inputData : List UInt8} (fits : inputData.length < 2 ^ 31)
    (rest : List UInt8) :
    ∃ k : TransactionKind, (callMessage currentMsg kind gas address value inputData).kind = k.intValue ∧
      parseMessage prev (encodeMessage (callMessage currentMsg kind gas address value inputData) ++ rest) =
        some (receivedContext prev (callMessage currentMsg kind gas address value inputData) k, rest) := by
  obtain ⟨k, kindIs, -⟩ := kind_callMessage picked currentMsg gas address value inputData
  refine ⟨k, kindIs, ?_⟩
  rw [parseMessage_encodeMessage prev _ kindIs (by rwa [input_callMessage]) rest, ← priced]
  rfl

theorem Callback.answer_wellFormed {handle : ExecutionContext → Option FastVmTransactionResult}
    (answered : ∀ ctx r, handle ctx = some r → 0 ≤ r.energyRemaining ∧ r.output.length < 2 ^ 31)
    (ctx : ExecutionContext) :
    0 ≤ ((handle ctx).getD Callback.internalError).energyRemaining ∧
      ((handle ctx).getD Callback.internalError).output.length < 2 ^ 31 := by
  cases handled : handle ctx with
  | none => exact ⟨by decide, by decide⟩
  | some r => exact answered ctx r handled

theorem call_nested_decoded (prev : ExecutionContext)
    (priced : prev.nrgPrice = DataWord.fromLong prev.nrgPrice.toLong) (currentMsg : EvmMessage)
    {inst : Instruction} {kind : Int32} (picked : callKind inst = some kind) (gas : Int64)
    (address : Address) (value : DataWord) {inputData : List UInt8} (fits : inputData.length < 2 ^ 31)
    (handle : ExecutionContext → Option FastVmTransactionResult)
    (answered : ∀ ctx r, handle ctx = some r → 0 ≤ r.energyRemaining ∧ r.output.length < 2 ^ 31) :
    ∃ k : TransactionKind,
      let msg := callMessage currentMsg kind gas address value inputData
      let answer := (handle (receivedContext prev msg k)).getD Callback.internalError
      msg.kind = k.intValue ∧
        (call (Callback.call prev handle) msg).map (fun result => decodeCallResult (callReturn result)) =
          some (decide (answer.code = .success), answer.energyRemaining) := by
  obtain ⟨k, kindIs, parsed⟩ :=
    parseMessage_callMessage prev priced currentMsg picked gas address value fits []
  rw [List.append_nil] at parsed
  refine ⟨k, ?_⟩
  dsimp only
  refine ⟨kindIs, ?_⟩
  obtain ⟨nonneg, fitsAnswer⟩ := Callback.answer_wellFormed answered
    (receivedContext prev (callMessage currentMsg kind gas address value inputData) k)
  rw [call, Callback.call, parsed, Option.bind_some]
  generalize (handle _).getD Callback.internalError = answer at nonneg fitsAnswer ⊢
  rw [← List.append_nil (FastVmTransactionResult.toBytes answer), parseResult_toBytes answer fitsAnswer,
    Option.map_some, Option.map_some]
  dsimp only
  rw [decodeCallResult_callReturn
    (show 0 ≤ (⟨answer.code.toInt, answer.energyRemaining, answer.output⟩ : EvmResult).gasLeft
      from nonneg)]
  have sameCode : answer.code.toInt = EvmStatusCode.success.toInt ↔ answer.code = .success :=
    ⟨fun same => FastVmResultCode.toInt_injective same, fun same => by rw [same]; rfl⟩
  simp only [sameCode]

/-- The nested-call protocol round-trips at each of its crossings. -/
theorem nestedCallProtocol_roundTrips :
    (∀ (prev : ExecutionContext) (currentMsg : EvmMessage) (inst : Instruction) (kind : Int32)
        (gas : Int64) (address : Address) (value : DataWord) (inputData rest : List UInt8),
        prev.nrgPrice = DataWord.fromLong prev.nrgPrice.toLong → callKind inst = some kind →
        inputData.length < 2 ^ 31 →
        ∃ k : TransactionKind,
          (callMessage currentMsg kind gas address value inputData).kind = k.intValue ∧
          parseMessage prev (encodeMessage (callMessage currentMsg kind gas address value inputData) ++
              rest) =
            some (receivedContext prev (callMessage currentMsg kind gas address value inputData) k,
              rest)) ∧
    (∀ (r : FastVmTransactionResult) (rest : List UInt8), r.output.length < 2 ^ 31 →
        parseResult (r.toBytes ++ rest) = some (⟨r.code.toInt, r.energyRemaining, r.output⟩, rest)) ∧
    (∀ (e : EvmResult) (status : EvmStatusCode) (rest : List UInt8), e.statusCode = status.toInt →
        0 ≤ e.gasLeft → e.output.length < 2 ^ 31 →
        ∃ code : FastVmResultCode, code.toInt = e.statusCode ∧
          FastVmTransactionResult.fromBytes (encodeResult e ++ rest) =
            some (⟨code, e.output, e.gasLeft⟩, rest)) ∧
    (∀ e : EvmResult, 0 ≤ e.gasLeft →
        decodeCallResult (callReturn e) =
          (decide (e.statusCode = EvmStatusCode.success.toInt), e.gasLeft)) := by
  refine ⟨?message, ?javaResult, ?vmResult, ?returnWord⟩
  case message =>
    intro prev currentMsg inst kind gas address value inputData rest priced picked fits
    exact parseMessage_callMessage prev priced currentMsg picked gas address value fits rest
  case javaResult =>
    intro r rest fits
    exact parseResult_toBytes r fits rest
  case vmResult =>
    intro e status rest statusIs nonneg fits
    obtain ⟨code, -, sameInt⟩ := FastVmResultCode.fromInt_evmStatusCode status
    refine ⟨code, sameInt.trans statusIs.symm, ?_⟩
    rw [fromBytes_encodeResult (statusIs.trans sameInt.symm) fits rest,
      FastVmTransactionResult.of_of_nonneg nonneg]
  case returnWord =>
    intro e nonneg
    exact decodeCallResult_callReturn nonneg

theorem nestedCallProtocol_roundTrips_staticcall :
    let prev : ExecutionContext :=
      ⟨List.Vector.replicate 32 0, List.Vector.replicate 32 0, List.Vector.replicate 32 0,
        DataWord.fromLong 1, 100, DataWord.zero, [], 0, .call, 0, List.Vector.replicate 32 0, 0, 0, 0,
        DataWord.zero, false, []⟩
    let current : EvmMessage :=
      ⟨List.Vector.replicate 32 1, List.Vector.replicate 32 2, DataWord.zero, [], 100, 0, evmCall, 0⟩
    let msg := callMessage current evmStaticcall 50 (List.Vector.replicate 32 3) DataWord.zero [7]
    let answer : FastVmTransactionResult := ⟨.revert, [5], 40⟩
    let result : EvmResult := ⟨7, 40, [5]⟩
    (prev.nrgPrice = DataWord.fromLong prev.nrgPrice.toLong ∧
      callKind .staticcall = some evmStaticcall ∧ [7].length < 2 ^ 31 ∧
      ∃ k : TransactionKind, msg.kind = k.intValue ∧
        parseMessage prev (encodeMessage msg ++ []) = some (receivedContext prev msg k, [])) ∧
    (answer.output.length < 2 ^ 31 ∧
      parseResult (answer.toBytes ++ []) =
        some (⟨answer.code.toInt, answer.energyRemaining, answer.output⟩, [])) ∧
    (result.statusCode = EvmStatusCode.revert.toInt ∧ 0 ≤ result.gasLeft ∧
      result.output.length < 2 ^ 31 ∧
      ∃ code : FastVmResultCode, code.toInt = result.statusCode ∧
        FastVmTransactionResult.fromBytes (encodeResult result ++ []) =
          some (⟨code, result.output, result.gasLeft⟩, [])) ∧
    (0 ≤ result.gasLeft ∧
      decodeCallResult (callReturn result) =
        (decide (result.statusCode = EvmStatusCode.success.toInt), result.gasLeft)) :=
  ⟨⟨(DataWord.fromLong_toLong_fromLong 1).symm, rfl, by decide,
      nestedCallProtocol_roundTrips.1 _ _ .staticcall evmStaticcall 50 _ _ [7] []
        (DataWord.fromLong_toLong_fromLong 1).symm rfl (by decide)⟩,
    ⟨by decide, nestedCallProtocol_roundTrips.2.1 _ [] (by decide)⟩,
    ⟨rfl, by decide, by decide,
      nestedCallProtocol_roundTrips.2.2.1 _ .revert [] rfl (by decide) (by decide)⟩,
    ⟨by decide, nestedCallProtocol_roundTrips.2.2.2 _ (by decide)⟩⟩

end AionFastVM.Jni
