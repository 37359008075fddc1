import AionFastVM.Jni.Context
import Mathlib.Data.Nat.Size

/-!
# Nested call messages across the Java/native boundary

`none` stands where Java throws.
-/

namespace AionFastVM.Jni
open AionFastVM.Library

def writeInt (num : UInt32) : List UInt8 := beBytes 4 num.toNat

def writeLong (num : UInt64) : List UInt8 := beBytes 8 num.toNat

@[simp] theorem length_writeInt (num : UInt32) : (writeInt num).length = 4 := by simp [writeInt]

@[simp] theorem length_writeLong (num : UInt64) : (writeLong num).length = 8 := by
  simp [writeLong]

theorem getInt_bind_writeInt {β : Type} (num : UInt32) (rest : List UInt8)
    (next : Int32 → Decoder β) :
    (ByteBuffer.getInt >>= next) (writeInt num ++ rest) = next num.toInt32 rest := by
  apply Decoder.bind_of_some
  rw [ByteBuffer.getInt, writeInt, Decoder.bind_of_some (Decoder.nat_append 4 _ rest),
    Nat.mod_eq_of_lt (show num.toNat < 256 ^ 4 from UInt32.toNat_lt _), UInt32.ofNat_toNat]
  rfl

theorem getLong_bind_writeLong {β : Type} (num : UInt64) (rest : List UInt8)
    (next : Int64 → Decoder β) :
    (ByteBuffer.getLong >>= next) (writeLong num ++ rest) = next num.toInt64 rest := by
  apply Decoder.bind_of_some
  rw [ByteBuffer.getLong, writeLong, Decoder.bind_of_some (Decoder.nat_append 8 _ rest),
    Nat.mod_eq_of_lt (show num.toNat < 256 ^ 8 from UInt64.toNat_lt _), UInt64.ofNat_toNat]
  rfl

theorem toInt32_ofNat_length {length : Nat} (fits : length < 2 ^ 31) :
    0 ≤ (UInt32.ofNat length).toInt32 ∧ (UInt32.ofNat length).toInt32.toInt.toNat = length := by
  have bits : (UInt32.ofNat length).toNat = length := by
    rw [UInt32.toNat_ofNat', Nat.mod_eq_of_lt (by omega)]
  have signed : (UInt32.ofNat length).toInt32.toInt = length := by
    rw [← Int32.toInt_toBitVec, UInt32.toBitVec_toInt32, BitVec.toInt_eq_toNat_cond,
      UInt32.toNat_toBitVec, bits, if_pos (by omega)]
  have zero : (0 : Int32).toInt = 0 := by decide
  rw [Int32.le_iff_toInt_le, zero, signed]
  omega

namespace DataWord

def toLong (word : DataWord) : Int64 := (UInt64.ofNat (beValue (word.toList.drop 8))).toInt64

def fromLong (number : Int64) : DataWord :=
  ⟨List.replicate 8 0 ++ ByteBuffer.putLong number, by simp⟩

/-- `BigInteger.toByteArray` of a number that is not negative. -/
def toByteArray (value : Nat) : List UInt8 := beBytes (value.size / 8 + 1) value

def removeLargeBigIntegerLeadingZeroByte (bytes : List UInt8) : List UInt8 :=
  if bytes.length = 16 + 1 ∧ bytes.head? = some 0 then bytes.drop 1 else bytes

def ofBytes (bytes : List UInt8) : Option DataWord :=
  if exact : bytes.length = 16 then some ⟨bytes, exact⟩
  else if short : bytes.length < 16 then
    some ⟨List.replicate (16 - bytes.length) 0 ++ bytes,
      (by simp only [List.length_append, List.length_replicate]; omega)⟩
  else none

def fromBigInteger (value : Nat) : Option DataWord :=
  ofBytes (removeLargeBigIntegerLeadingZeroByte (toByteArray value))

theorem toLong_fromLong (number : Int64) : (fromLong number).toLong = number := by
  have dropped : (fromLong number).toList.drop 8 = ByteBuffer.putLong number := by
    simp [fromLong, List.Vector.toList_mk]
  rw [toLong, dropped, ByteBuffer.putLong, beValue_beBytes,
    Nat.mod_eq_of_lt (show number.toUInt64.toNat < 256 ^ 8 from UInt64.toNat_lt _),
    UInt64.ofNat_toNat, Int64.toInt64_toUInt64]

theorem ofBytes_of_le {bytes : List UInt8} (short : bytes.length ≤ 16) :
    (ofBytes bytes).map List.Vector.toList = some (List.replicate (16 - bytes.length) 0 ++ bytes) := by
  unfold ofBytes
  by_cases exact : bytes.length = 16
  · rw [dif_pos exact, exact]
    rfl
  · rw [dif_neg exact, dif_pos (by omega)]
    rfl

theorem fromBigInteger_of_lt {value : Nat} (fits : value < 256 ^ 16) :
    (fromBigInteger value).map List.Vector.toList = some (beBytes 16 value) := by
  have sizeLe : value.size ≤ 128 := Nat.size_le.mpr (by simpa using fits)
  by_cases full : value.size = 128
  · -- the sign bit needs a seventeenth byte, a leading zero
    have width : value.size / 8 + 1 = 1 + 16 := by omega
    have signed : toByteArray value = 0 :: beBytes 16 value := by
      rw [toByteArray, width, beBytes_add fits, List.replicate_one, List.singleton_append]
    have removed : removeLargeBigIntegerLeadingZeroByte (toByteArray value) = beBytes 16 value := by
      simp [removeLargeBigIntegerLeadingZeroByte, signed]
    rw [fromBigInteger, removed, ofBytes_of_le (by simp)]
    simp
  · -- at most sixteen bytes, padded in front
    have width : value.size / 8 + 1 ≤ 16 := by omega
    have fitsWidth : value < 256 ^ (value.size / 8 + 1) := by
      calc value < 2 ^ value.size := Nat.lt_size_self value
        _ ≤ 2 ^ (8 * (value.size / 8 + 1)) := Nat.pow_le_pow_right (by omega) (by omega)
        _ = 256 ^ (value.size / 8 + 1) := by rw [Nat.pow_mul]
    have kept : removeLargeBigIntegerLeadingZeroByte (toByteArray value) = toByteArray value := by
      rw [removeLargeBigIntegerLeadingZeroByte, if_neg]
      rw [toByteArray, length_beBytes]
      omega
    rw [fromBigInteger, kept, ofBytes_of_le (by rw [toByteArray, length_beBytes]; exact width),
      toByteArray, length_beBytes, ← beBytes_add fitsWidth, Nat.sub_add_cancel width]

theorem fromBigInteger_beValue (word : DataWord) :
    fromBigInteger (beValue word.toList) = some word := by
  have bound := beValue_lt word.toList
  have same := beBytes_beValue word.toList
  rw [List.Vector.toList_length] at bound same
  have bytes := fromBigInteger_of_lt bound
  rw [same] at bytes
  obtain ⟨made, made_eq, madeBytes⟩ := Option.map_eq_some_iff.mp bytes
  rw [made_eq, List.Vector.eq made word madeBytes]

theorem fromLong_toLong_fromLong (number : Int64) :
    fromLong (fromLong number).toLong = fromLong number := by
  rw [toLong_fromLong]

def fromBytes (bytes : List UInt8) : Option DataWord := ofBytes bytes

def copyOfData (word : DataWord) : List UInt8 := word.toList

def toBigInteger (word : DataWord) : Nat := beValue word.toList

theorem toBigInteger_fromBigInteger {value : Nat} (fits : value < 256 ^ 16) :
    (fromBigInteger value).map toBigInteger = some value := by
  obtain ⟨word, made, wordBytes⟩ := Option.map_eq_some_iff.mp (fromBigInteger_of_lt fits)
  rw [made, Option.map_some, toBigInteger, wordBytes, beValue_beBytes_of_lt fits]

/-- `FvmDataWord` is a 16-byte big-endian codec. -/
theorem dataWord_codec_roundTrips :
    (∀ value : Nat, value < 2 ^ 128 →
      (fromBigInteger value).map toBigInteger = some value ∧
        (fromBigInteger value).map copyOfData = some (beBytes 16 value)) ∧
    (∀ data : DataWord, (fromBigInteger (beValue data.toList)).map copyOfData = some data.toList) ∧
    (∀ number : Int64, (fromLong number).toLong = number) ∧
    (∀ bytes : List UInt8, bytes.length ≤ 16 →
      (fromBytes bytes).map copyOfData = some (List.replicate (16 - bytes.length) 0 ++ bytes) ∧
        (fromBytes bytes).map toBigInteger = some (beValue bytes)) := by
  refine ⟨fun value fits => ?_, fun data => ?_, toLong_fromLong, fun bytes short => ?_⟩
  · have fits' : value < 256 ^ 16 := by simpa using fits
    exact ⟨toBigInteger_fromBigInteger fits', fromBigInteger_of_lt fits'⟩
  · rw [fromBigInteger_beValue]
    rfl
  · have padded := ofBytes_of_le short
    obtain ⟨word, made, wordBytes⟩ := Option.map_eq_some_iff.mp padded
    refine ⟨padded, ?_⟩
    rw [fromBytes, made, Option.map_some, toBigInteger, wordBytes, beValue_replicate_append]

end DataWord

namespace ByteBuffer

def getBytes (length : Int32) : Decoder (List UInt8) :=
  if length < 0 then failure else Decoder.bytes length.toInt.toNat

theorem getBytes_bind {β : Type} {length : Int32} {bytes : List UInt8} (nonneg : 0 ≤ length)
    (exact : length.toInt.toNat = bytes.length) (rest : List UInt8) (next : List UInt8 → Decoder β) :
    (getBytes length >>= next) (bytes ++ rest) = next bytes rest := by
  rw [getBytes, if_neg (Int32.not_lt.mpr nonneg), exact]
  exact Decoder.bytes_bind rest rfl next

end ByteBuffer

def encodeMessage (msg : EvmMessage) : List UInt8 :=
  msg.address.toList ++ msg.caller.toList ++ writeLong msg.gas.toUInt64 ++ msg.value.toList ++
    writeInt (UInt32.ofNat msg.input.length) ++ msg.input ++ writeInt msg.depth.toUInt32 ++
    writeInt msg.kind.toUInt32 ++ writeInt msg.flags

namespace ExecutionContext

def «from» (transactionHash : List UInt8) (destination origin sender : Address)
    (energyPrice energy : Int64) (value : Nat) (data : List UInt8) (depth : Int32)
    (kind : TransactionKind) (flags : Int32) (miner : Address)
    (blockNumber blockTimestamp blockEnergyLimit : Int64) (blockDifficulty : DataWord) :
    Option ExecutionContext :=
  (DataWord.fromBigInteger value).map fun callValue =>
    { address := destination, origin, sender, nrgPrice := DataWord.fromLong energyPrice,
      nrg := energy, callValue, callData := data, depth, kind, flags, blockCoinbase := miner,
      blockNumber, blockTimestamp, blockNrgLimit := blockEnergyLimit, blockDifficulty,
      isCreate := kind == .create, txHash := transactionHash }

theorem nrgPrice_from {transactionHash : List UInt8} {destination origin sender : Address}
    {energyPrice energy : Int64} {value : Nat} {data : List UInt8} {depth : Int32}
    {kind : TransactionKind} {flags : Int32} {miner : Address}
    {blockNumber blockTimestamp blockEnergyLimit : Int64} {blockDifficulty : DataWord}
    {c : ExecutionContext}
    (built : «from» transactionHash destination origin sender energyPrice energy value data depth kind
      flags miner blockNumber blockTimestamp blockEnergyLimit blockDifficulty = some c) :
    c.nrgPrice = DataWord.fromLong c.nrgPrice.toLong := by
  obtain ⟨callValue, -, made⟩ := Option.map_eq_some_iff.mp built
  subst made
  exact (DataWord.fromLong_toLong_fromLong energyPrice).symm

end ExecutionContext

def parseMessage (prev : ExecutionContext) : Decoder ExecutionContext := do
  let destination ← Decoder.vector 32
  let sender ← Decoder.vector 32
  let nrgLimit ← ByteBuffer.getLong
  let buf ← Decoder.bytes 16
  -- new BigInteger(1, buf): the sixteen bytes as an unsigned number
  let callValue := beValue buf
  let callData ← ByteBuffer.getBytes (← ByteBuffer.getInt)
  let depth ← ByteBuffer.getInt
  let kind ← Decoder.ofOption (TransactionKind.fromInt (← ByteBuffer.getInt))
  let flags ← ByteBuffer.getInt
  Decoder.ofOption (ExecutionContext.«from» prev.txHash destination prev.origin sender
    prev.nrgPrice.toLong nrgLimit callValue callData depth kind flags prev.blockCoinbase
    prev.blockNumber prev.blockTimestamp prev.blockNrgLimit prev.blockDifficulty)

theorem parseMessage_encodeMessage (prev : ExecutionContext) (m : EvmMessage) {k : TransactionKind}
    (kindIs : m.kind = k.intValue) (fits : m.input.length < 2 ^ 31) (rest : List UInt8) :
    parseMessage prev (encodeMessage m ++ rest) =
      some ({ prev with address := m.address, sender := m.caller,
                        nrgPrice := DataWord.fromLong prev.nrgPrice.toLong, nrg := m.gas,
                        callValue := m.value, callData := m.input, depth := m.depth, kind := k,
                        flags := m.flags.toInt32, isCreate := k == .create }, rest) := by
  obtain ⟨nonneg, exact⟩ := toInt32_ofNat_length fits
  simp only [parseMessage, encodeMessage, List.append_assoc, Decoder.vector_bind,
    getLong_bind_writeLong, Decoder.bytes_bind _ (List.Vector.toList_length m.value),
    getInt_bind_writeInt, ByteBuffer.getBytes_bind nonneg exact, Int32.toInt32_toUInt32, kindIs,
    TransactionKind.fromInt_intValue, Decoder.ofOption_some_bind, Int64.toInt64_toUInt64,
    ExecutionContext.«from», DataWord.fromBigInteger_beValue, Option.map_some]
  rfl

end AionFastVM.Jni
