import AionFastVM.Library.ByteCodec

/-!
# The execution context across the Java/native boundary

`ExecutionContext.toBytes` in Java and `parse_context` in the bridge. `none` stands where Java
throws.
-/

namespace AionFastVM.Jni
open AionFastVM.Library

abbrev Address := List.Vector UInt8 32

abbrev DataWord := List.Vector UInt8 16

def DataWord.zero : DataWord := List.Vector.replicate 16 0

def encodeBaseLen : Nat := 32 * 4 + 16 * 3 + 8 * 4 + 4 * 4

namespace ByteBuffer

def putInt (value : Int32) : List UInt8 := beBytes 4 value.toUInt32.toNat

def putLong (value : Int64) : List UInt8 := beBytes 8 value.toUInt64.toNat

def getInt : Decoder Int32 := do
  let bits ← Decoder.nat 4
  pure (UInt32.ofNat bits).toInt32

def getLong : Decoder Int64 := do
  let bits ← Decoder.nat 8
  pure (UInt64.ofNat bits).toInt64

@[simp] theorem length_putInt (value : Int32) : (putInt value).length = 4 := by
  simp [putInt]

@[simp] theorem length_putLong (value : Int64) : (putLong value).length = 8 := by
  simp [putLong]

end ByteBuffer

inductive TransactionKind where
  | call
  | delegateCall
  | callcode
  | create
  deriving DecidableEq, Repr

namespace TransactionKind

def intValue : TransactionKind → Int32
  | call => 0
  | delegateCall => 1
  | callcode => 2
  | create => 3

def fromInt (intValue : Int32) : Option TransactionKind :=
  if intValue = 0 then some call
  else if intValue = 1 then some delegateCall
  else if intValue = 2 then some callcode
  else if intValue = 3 then some create
  else none

@[simp] theorem fromInt_intValue (kind : TransactionKind) : fromInt kind.intValue = some kind := by
  cases kind <;> decide

end TransactionKind

structure ExecutionContext where
  address : Address
  origin : Address
  sender : Address
  nrgPrice : DataWord
  nrg : Int64
  callValue : DataWord
  callData : List UInt8
  depth : Int32
  kind : TransactionKind
  flags : Int32
  blockCoinbase : Address
  blockNumber : Int64
  blockTimestamp : Int64
  blockNrgLimit : Int64
  blockDifficulty : DataWord
  isCreate : Bool
  txHash : List UInt8

namespace ExecutionContext

def sentData (c : ExecutionContext) : List UInt8 := if c.isCreate then [] else c.callData

open ByteBuffer in
def toBytes (c : ExecutionContext) : List UInt8 :=
  let callData := c.sentData
  c.address.toList ++ c.origin.toList ++ c.sender.toList ++ c.nrgPrice.toList ++ putLong c.nrg ++
    c.callValue.toList ++ putInt (Int32.ofNat callData.length) ++ callData ++ putInt c.depth ++
    putInt c.kind.intValue ++ putInt c.flags ++ c.blockCoinbase.toList ++ putLong c.blockNumber ++
    putLong c.blockTimestamp ++ putLong c.blockNrgLimit ++ c.blockDifficulty.toList

theorem length_toBytes (c : ExecutionContext) :
    c.toBytes.length = encodeBaseLen + c.sentData.length := by
  simp only [toBytes, List.length_append, List.Vector.toList_length,
    ByteBuffer.length_putInt, ByteBuffer.length_putLong, encodeBaseLen]
  omega

end ExecutionContext

structure EvmMessage where
  address : Address
  caller : Address
  value : DataWord
  input : List UInt8
  gas : Int64
  depth : Int32
  /-- `enum evm_call_kind`, as the `int` the enumeration holds -/
  kind : Int32
  flags : UInt32

inductive EvmStatusCode where
  | success
  | failure
  | outOfGas
  | badInstruction
  | badJumpDestination
  | stackOverflow
  | stackUnderflow
  | revert
  | staticModeError
  | rejected
  | internalError
  deriving DecidableEq, Repr

def EvmStatusCode.toInt : EvmStatusCode → Int32
  | success => 0
  | failure => 1
  | outOfGas => 2
  | badInstruction => 3
  | badJumpDestination => 4
  | stackOverflow => 5
  | stackUnderflow => 6
  | revert => 7
  | staticModeError => 8
  | rejected => -1
  | internalError => -2

/-- The status is the `int` the enumeration holds, since `parse_result` casts whatever it reads. -/
structure EvmResult where
  statusCode : Int32
  gasLeft : Int64
  output : List UInt8

structure EvmTxContext where
  txGasPrice : DataWord
  txOrigin : Address
  blockCoinbase : Address
  blockNumber : Int64
  blockTimestamp : Int64
  blockGasLimit : Int64
  blockDifficulty : DataWord

def EvmTxContext.zero : EvmTxContext :=
  ⟨DataWord.zero, List.Vector.replicate 32 0, List.Vector.replicate 32 0, 0, 0, 0, DataWord.zero⟩

def readInt : Decoder UInt32 := do
  let bits ← Decoder.nat 4
  pure (UInt32.ofNat bits)

def readLong : Decoder UInt64 := do
  let bits ← Decoder.nat 8
  pure (UInt64.ofNat bits)

/-- `parse_context`; the energy price is skipped and `tx_gas_price` keeps its value. -/
def parseContext (ctx : EvmTxContext) : Decoder (EvmMessage × EvmTxContext) := do
  let address ← Decoder.vector 32
  let txOrigin ← Decoder.vector 32
  let caller ← Decoder.vector 32
  let _gasPrice ← Decoder.bytes 16
  let gas ← readLong
  let value ← Decoder.vector 16
  let inputSize ← readInt
  let input ← Decoder.bytes inputSize.toNat
  let depth ← readInt
  let kind ← readInt
  let flags ← readInt
  let blockCoinbase ← Decoder.vector 32
  let blockNumber ← readLong
  let blockTimestamp ← readLong
  let blockGasLimit ← readLong
  let blockDifficulty ← Decoder.vector 16
  pure (⟨address, caller, value, input, gas.toInt64, depth.toInt32, kind.toInt32, flags⟩,
    { ctx with txOrigin, blockCoinbase, blockNumber := blockNumber.toInt64,
               blockTimestamp := blockTimestamp.toInt64, blockGasLimit := blockGasLimit.toInt64,
               blockDifficulty })

theorem readInt_putInt (value : Int32) (rest : List UInt8) :
    readInt (ByteBuffer.putInt value ++ rest) = some (value.toUInt32, rest) := by
  rw [readInt, ByteBuffer.putInt, Decoder.bind_of_some (Decoder.nat_append 4 _ rest),
    Nat.mod_eq_of_lt (show value.toUInt32.toNat < 256 ^ 4 from UInt32.toNat_lt _), UInt32.ofNat_toNat]
  rfl

theorem readLong_putLong (value : Int64) (rest : List UInt8) :
    readLong (ByteBuffer.putLong value ++ rest) = some (value.toUInt64, rest) := by
  rw [readLong, ByteBuffer.putLong, Decoder.bind_of_some (Decoder.nat_append 8 _ rest),
    Nat.mod_eq_of_lt (show value.toUInt64.toNat < 256 ^ 8 from UInt64.toNat_lt _), UInt64.ofNat_toNat]
  rfl

theorem readInt_bind {β : Type} (value : Int32) (rest : List UInt8) (next : UInt32 → Decoder β) :
    (readInt >>= next) (ByteBuffer.putInt value ++ rest) = next value.toUInt32 rest :=
  Decoder.bind_of_some (readInt_putInt value rest)

theorem readLong_bind {β : Type} (value : Int64) (rest : List UInt8) (next : UInt64 → Decoder β) :
    (readLong >>= next) (ByteBuffer.putLong value ++ rest) = next value.toUInt64 rest :=
  Decoder.bind_of_some (readLong_putLong value rest)

theorem toNat_length_field {length : Nat} (fits : length < 2 ^ 31) :
    (Int32.ofNat length).toUInt32.toNat = length := by
  rw [Int32.toUInt32_ofNat', UInt32.toNat_ofNat', Nat.mod_eq_of_lt (by omega)]

theorem parseContext_toBytes (ctx : EvmTxContext) (c : ExecutionContext) (rest : List UInt8)
    (fits : c.sentData.length < 2 ^ 31) :
    parseContext ctx (c.toBytes ++ rest) =
      some ((⟨c.address, c.sender, c.callValue, c.sentData, c.nrg, c.depth, c.kind.intValue,
          c.flags.toUInt32⟩,
        { ctx with txOrigin := c.origin, blockCoinbase := c.blockCoinbase,
                   blockNumber := c.blockNumber, blockTimestamp := c.blockTimestamp,
                   blockGasLimit := c.blockNrgLimit, blockDifficulty := c.blockDifficulty }),
        rest) := by
  have input := toNat_length_field fits
  simp only [parseContext, ExecutionContext.toBytes, List.append_assoc, Decoder.vector_bind,
    readInt_bind, readLong_bind,
    Decoder.bytes_bind _ (List.Vector.toList_length c.nrgPrice),
    Decoder.bytes_bind _ input.symm, Decoder.pure_apply, Int64.toInt64_toUInt64,
    Int32.toInt32_toUInt32]

def parseAll (ctx : EvmTxContext) : List ExecutionContext → Option EvmTxContext
  | [] => some ctx
  | c :: cs => (parseContext ctx (c.toBytes)).bind fun parsed => parseAll parsed.1.2 cs

theorem parseAll_txGasPrice (cs : List ExecutionContext)
    (fits : ∀ c ∈ cs, c.sentData.length < 2 ^ 31) (ctx : EvmTxContext) :
    ∃ last, parseAll ctx cs = some last ∧ last.txGasPrice = ctx.txGasPrice := by
  induction cs generalizing ctx with
  | nil => exact ⟨ctx, rfl, rfl⟩
  | cons c cs ih =>
    have parsed := parseContext_toBytes ctx c [] (fits c List.mem_cons_self)
    rw [List.append_nil] at parsed
    obtain ⟨last, rest, sameGasPrice⟩ := ih (fun other member => fits other (List.mem_cons_of_mem _ member))
      { ctx with txOrigin := c.origin, blockCoinbase := c.blockCoinbase,
                 blockNumber := c.blockNumber, blockTimestamp := c.blockTimestamp,
                 blockGasLimit := c.blockNrgLimit, blockDifficulty := c.blockDifficulty }
    exact ⟨last, by rw [parseAll, parsed, Option.bind_some, rest], sameGasPrice⟩

theorem parseContext_drops_nrgPrice :
    (parseContext EvmTxContext.zero
      (ExecutionContext.toBytes
        ⟨List.Vector.replicate 32 0, List.Vector.replicate 32 0, List.Vector.replicate 32 0,
          ⟨List.replicate 15 0 ++ [1], rfl⟩, 0, DataWord.zero, [], 0, .call, 0,
          List.Vector.replicate 32 0, 0, 0, 0, DataWord.zero, false, []⟩)).map
        (fun parsed => parsed.1.2.txGasPrice) = some DataWord.zero ∧
      (⟨List.replicate 15 0 ++ [1], rfl⟩ : DataWord) ≠ DataWord.zero := by
  refine ⟨?_, fun same => ?_⟩
  · rw [← List.append_nil (ExecutionContext.toBytes _), parseContext_toBytes _ _ [] (by decide)]
    rfl
  · have bytes := congrArg List.Vector.toList same
    exact absurd bytes (by decide)

end AionFastVM.Jni
