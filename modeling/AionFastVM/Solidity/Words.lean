import AionFastVM.Solidity.Codec

/-!
# Words and the shape of encodings
-/

namespace AionFastVM.Solidity
open AionFastVM.Library SolidityType

@[simp] theorem length_encodeInt (n : Int) : (encodeInt n).length = 16 := by
  unfold encodeInt bigIntegerToBytesSigned
  simp only [List.length_append, List.length_replicate, List.length_take, List.length_drop]
  split <;> omega

theorem encodeInt_eq {n : Int} (low : -2 ^ 127 ≤ n) (high : n < 2 ^ 127) :
    encodeInt n = beBytes 16 (n % 256 ^ 16).toNat := by
  have short : (toByteArray n).length ≤ 16 := length_toByteArray_le (by decide) low high
  have notSigned : ¬ (toByteArray n).length = 16 + 1 := by omega
  unfold encodeInt bigIntegerToBytesSigned
  simp only [if_neg notSigned, Nat.min_eq_left short, List.drop_zero, List.take_length]
  exact signExtend_toByteArray short

theorem decodeInt_of_prefix_drop {buffer : List UInt8} {offset : Nat} {n : Int} (low : -2 ^ 127 ≤ n)
    (high : n < 2 ^ 127) (held : encodeInt n <+: buffer.drop offset) (inside : offset ≤ buffer.length) :
    decodeInt buffer offset = some n := by
  rw [encodeInt_eq low high] at held
  have copied := copyOfRange_of_prefix_drop held inside (show 16 ≤ (beBytes 16 _).length by simp)
  simp only [Nat.cast_ofNat] at copied
  rw [decodeInt, copied, Option.map_some, List.take_of_length_le (by simp),
    ofByteArray_beBytes (by decide) low high]

theorem paddedLength_eq (length : Nat) :
    paddedLength length = if length = 0 then 16 else ((length - 1) / 16 + 1) * 16 := by
  unfold paddedLength
  cases length with
  | zero => decide
  | succ n =>
    have shifted : ((n + 1 : Nat) : Int) - 1 = (n : Int) := by omega
    rw [if_neg (by omega), shifted, Int.natCast_tdiv_eq_ediv]
    omega

theorem paddedLength_of_dvd {length : Nat} (words : 16 ∣ length) (positive : 0 < length) :
    paddedLength length = length := by
  rw [paddedLength_eq]
  split <;> omega

theorem le_paddedLength (length : Nat) : length ≤ paddedLength length := by
  rw [paddedLength_eq]
  split <;> omega

theorem dvd_paddedLength (length : Nat) : 16 ∣ paddedLength length := by
  rw [paddedLength_eq]
  split <;> omega

theorem sixteen_le_paddedLength (length : Nat) : 16 ≤ paddedLength length := by
  rw [paddedLength_eq]
  split <;> omega

theorem paddedLength_of_le_16 {length : Nat} (short : length ≤ 16) : paddedLength length = 16 := by
  rw [paddedLength_eq]
  split <;> omega

theorem paddedLength_of_le_32 {length : Nat} (long : 16 < length) (short : length ≤ 32) :
    paddedLength length = 32 := by
  rw [paddedLength_eq]
  split <;> omega

@[simp] theorem length_encodeBytes (bb : List UInt8) :
    (encodeBytes bb).length = 16 + paddedLength bb.length := by
  have room := le_paddedLength bb.length
  simp only [encodeBytes, List.length_append, length_encodeInt, List.length_replicate]
  omega

theorem length_elementOffsets (offset : Nat) (elems : List (List UInt8)) :
    (elementOffsets offset elems).length = elems.length := by
  induction elems generalizing offset with
  | nil => rfl
  | cons first rest ih => simp [elementOffsets, ih]

theorem length_flatten_encodeInt (offsets : List Nat) :
    (offsets.map fun (offset : Nat) => encodeInt offset).flatten.length = 16 * offsets.length := by
  induction offsets with
  | nil => rfl
  | cons first rest ih =>
    simp only [List.map_cons, List.flatten_cons, List.length_append, length_encodeInt, ih,
      List.length_cons]
    omega

theorem length_encodeDynamicList (dynamicElements : Bool) (elems : List (List UInt8)) :
    (encodeDynamicList dynamicElements elems).length =
      16 + (if dynamicElements then 16 * elems.length else 0) + elems.flatten.length := by
  cases dynamicElements with
  | false => simp [encodeDynamicList]
  | true =>
    simp only [encodeDynamicList, if_true, List.length_append, length_encodeInt,
      length_flatten_encodeInt, length_elementOffsets]

theorem isDynamicType_getFixedSize {type : SolidityType} (dynamic : isDynamicType type = true) :
    getFixedSize type = 16 := by
  cases type <;> simp_all [isDynamicType, getFixedSize]

/-- The arguments the codec is meant to give back. -/
def Fits : SolidityType → AbiValue → Prop
  | intType, .number n => -2 ^ 127 ≤ n ∧ n < 2 ^ 127
  | boolType, .boolean _ => True
  | addressType, .bytes bytes => bytes.length = 32
  | bytesType, .bytes _ => True
  | stringType, .text _ => True
  | bytes32Type size, .bytes bytes =>
    bytes.length ≤ size ∧ (size ≤ 16 ∨ 16 < bytes.length ∧ size ≤ 32)
  | staticArrayType elementType size, .array elements =>
    elements.length = size ∧ isDynamicType elementType = false ∧
      ∀ element ∈ elements, Fits elementType element
  | dynamicArrayType elementType, .array elements =>
    elements.length < 2 ^ 31 ∧ ∀ element ∈ elements, Fits elementType element
  | _, _ => False

def decoded : SolidityType → AbiValue → AbiValue
  | bytes32Type size, .bytes bytes => .bytes (bytes ++ List.replicate (size - bytes.length) 0)
  | staticArrayType elementType _, .array elements => .array (elements.map (decoded elementType))
  | dynamicArrayType elementType, .array elements => .array (elements.map (decoded elementType))
  | _, value => value

structure Shaped (type : SolidityType) (encoded : List UInt8) : Prop where
  words : 16 ∣ encoded.length
  dynamic : isDynamicType type = true → 16 ≤ encoded.length
  static : isDynamicType type = false → encoded.length = getFixedSize type

theorem encode_shape {type : SolidityType} {value : AbiValue} (fits : Fits type value) :
    ∃ encoded, encode type value = some encoded ∧ Shaped type encoded := by
  induction type generalizing value with
  | intType =>
    cases value <;> simp only [Fits] at fits
    case number n => exact ⟨encodeInt n, rfl, by simp, by simp [isDynamicType], by simp [getFixedSize]⟩
  | boolType =>
    cases value <;> simp only [Fits] at fits
    case boolean b => exact ⟨_, rfl, by simp, by simp [isDynamicType], by simp [getFixedSize]⟩
  | addressType =>
    cases value <;> simp only [Fits] at fits
    case bytes bytes =>
      exact ⟨bytes, by simp [encode, fits], by simp [fits], by simp [isDynamicType],
        by simp [getFixedSize, fits]⟩
  | bytesType =>
    cases value <;> simp only [Fits] at fits
    case bytes bb =>
      have words := dvd_paddedLength bb.length
      exact ⟨encodeBytes bb, rfl, by simp; omega, by simp, by simp [isDynamicType]⟩
  | stringType =>
    cases value <;> simp only [Fits] at fits
    case text s =>
      have words := dvd_paddedLength (getBytes s).length
      exact ⟨encodeBytes (getBytes s), rfl, by simp; omega, by simp, by simp [isDynamicType]⟩
  | bytes32Type size =>
    cases value <;> simp only [Fits] at fits
    case bytes bytes =>
      obtain ⟨short, room⟩ := fits
      have padded : paddedLength bytes.length = if size > 16 then 32 else 16 := by
        rcases room with small | ⟨long, most⟩
        · rw [if_neg (by omega), paddedLength_of_le_16 (by omega)]
        · rw [if_pos (by omega), paddedLength_of_le_32 long (by omega)]
      have cover := le_paddedLength bytes.length
      refine ⟨bytes ++ List.replicate (paddedLength bytes.length - bytes.length) 0,
        by simp [encode, Nat.not_lt.mpr short], ?_, by simp [isDynamicType], ?_⟩
      · simp only [List.length_append, List.length_replicate]
        rw [padded] at cover ⊢
        split <;> omega
      · intro _
        simp only [List.length_append, List.length_replicate, getFixedSize]
        rw [padded] at cover ⊢
        omega
  | staticArrayType elementType size ih =>
    cases value <;> simp only [Fits] at fits
    case array elements =>
      obtain ⟨count, static, each⟩ := fits
      obtain ⟨encs, made, pairs⟩ :=
        exists_mapM_of_forall elements fun element member => ih (each element member)
      have total := length_flatten_of_forall₂ pairs fun _ enc shaped => shaped.static static
      refine ⟨encs.flatten, by simp [encode, arrayElements, count, made], ?_, by simp [isDynamicType], ?_⟩
      · exact dvd_length_flatten_of_forall₂ pairs fun _ _ shaped => shaped.words
      · intro _
        rw [total, count, getFixedSize, Nat.mul_comm]
  | dynamicArrayType elementType ih =>
    cases value <;> simp only [Fits] at fits
    case array elements =>
      obtain ⟨-, each⟩ := fits
      obtain ⟨encs, made, pairs⟩ :=
        exists_mapM_of_forall elements fun element member => ih (each element member)
      have words := dvd_length_flatten_of_forall₂ pairs fun _ _ shaped => shaped.words
      refine ⟨encodeDynamicList (isDynamicType elementType) encs,
        by simp [encode, arrayElements, made], ?_, ?_, by simp [isDynamicType]⟩
      · rw [length_encodeDynamicList]
        split <;> omega
      · intro _
        rw [length_encodeDynamicList]
        omega

end AionFastVM.Solidity
