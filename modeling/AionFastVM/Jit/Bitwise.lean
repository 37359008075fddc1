import AionFastVM.Library.ByteCodec
import Mathlib.Data.Nat.Bitwise

/-!
# Byte order, BYTE and SIGNEXTEND

Stack words are in the host's byte order, little-endian on the hosts the JIT is built for.
-/

namespace AionFastVM.Jit
open AionFastVM.Library

def bswap (n : Nat) (word : BitVec (8 * n)) : BitVec (8 * n) :=
  BitVec.ofNat (8 * n) (beValue (beBytes n word.toNat).reverse)

/-- `llvm::sys::IsLittleEndianHost` on the hosts the JIT is built for. -/
def isLittleEndianHost : Bool := true

def bswapIfLE (n : Nat) (word : BitVec (8 * n)) : BitVec (8 * n) :=
  if isLittleEndianHost then bswap n word else word

def byteElement {w : Nat} (word : BitVec w) (j : Nat) : BitVec 8 := (word >>> (8 * j)).setWidth 8

theorem toNat_byteElement {w : Nat} (word : BitVec w) (j : Nat) :
    (byteElement word j).toNat = word.toNat / 256 ^ j % 256 := by
  have bytes : (256 : Nat) ^ j = 2 ^ (8 * j) := by rw [Nat.pow_mul]
  simp [byteElement, BitVec.toNat_setWidth, BitVec.toNat_ushiftRight, Nat.shiftRight_eq_div_pow,
    bytes]

theorem toNat_bswap (n : Nat) (word : BitVec (8 * n)) :
    (bswap n word).toNat = beValue (beBytes n word.toNat).reverse := by
  have fits := beValue_lt (beBytes n word.toNat).reverse
  have bytes : (256 : Nat) ^ n = 2 ^ (8 * n) := by rw [Nat.pow_mul]
  rw [List.length_reverse, length_beBytes, bytes] at fits
  simp [bswap, BitVec.toNat_ofNat, Nat.mod_eq_of_lt fits]

theorem byteElement_bswap (n : Nat) (word : BitVec (8 * n)) {j : Nat} (inside : j < n) :
    (byteElement (bswap n word) j).toNat = ((beBytes n word.toNat).getD j 0).toNat := by
  rw [toNat_byteElement, toNat_bswap, beValue_div_mod (by simpa using inside)]
  simp only [List.length_reverse, length_beBytes, List.getD_eq_getElem?_getD]
  rw [List.getElem?_reverse (by simp only [length_beBytes]; omega), length_beBytes,
    show n - 1 - (n - 1 - j) = j by omega]

def byteInstr (idx word : BitVec 128) : BitVec 128 :=
  let value := bswapIfLE 16 word
  let idxValid := decide (idx < 16#128)
  let safeIdx := (idx.setWidth 4).setWidth 64
  let byte := byteElement value safeIdx.toNat
  let value := byte.setWidth 128
  if idxValid then value else 0#128

def signextendInstr (idx word : BitVec 128) : BitVec 128 :=
  let k16 := (idx.setWidth 4).setWidth 64
  let k16x8 := k16 * 8#64
  let bitpos := k16x8 + 7#64
  let bitposEx := bitpos.setWidth 128
  let bitval := word >>> bitposEx
  let bittest := bitval.setWidth 1
  let mask := (1#128 <<< bitposEx) - 1#128
  let negmask := mask ^^^ BitVec.allOnes 128
  let val1 := word ||| negmask
  let val0 := word &&& mask
  let kInRange := decide (idx ≤ 14#128)
  if kInRange then (if bittest = 1#1 then val1 else val0) else word

theorem toNat_lowNibble (idx : BitVec 128) :
    ((idx.setWidth 4).setWidth 64).toNat = idx.toNat % 16 := by
  simp only [BitVec.toNat_setWidth]
  omega

theorem byte_eq (idx word : BitVec 128) :
    byteInstr idx word =
      if idx.toNat < 16 then BitVec.ofNat 128 ((beBytes 16 word.toNat).getD idx.toNat 0).toNat
      else 0#128 := by
  have valid : (idx < 16#128) ↔ idx.toNat < 16 := by simp [BitVec.lt_def]
  by_cases small : idx.toNat < 16
  · have byte := byteElement_bswap 16 word small
    simp only [byteInstr, bswapIfLE, isLittleEndianHost, if_true, valid.mpr small, decide_true,
      toNat_lowNibble, Nat.mod_eq_of_lt small, if_pos small]
    apply BitVec.eq_of_toNat_eq
    have below := (byteElement (bswap 16 word) idx.toNat).isLt
    rw [BitVec.toNat_setWidth, BitVec.toNat_ofNat, byte]
  · simp [byteInstr, mt valid.mp small, small]

theorem toNat_bitpos {idx : BitVec 128} (inRange : idx.toNat ≤ 14) :
    (((idx.setWidth 4).setWidth 64 * 8#64 + 7#64).setWidth 128).toNat = 8 * idx.toNat + 7 := by
  have low := toNat_lowNibble idx
  simp only [BitVec.toNat_setWidth, BitVec.toNat_add, BitVec.toNat_mul, BitVec.toNat_ofNat] at low ⊢
  omega

theorem signextend_getLsbD (idx word : BitVec 128) :
    (14 < idx.toNat → signextendInstr idx word = word) ∧
    (idx.toNat ≤ 14 → ∀ i < 128, (signextendInstr idx word).getLsbD i =
      if i < 8 * idx.toNat + 7 then word.getLsbD i else word.getLsbD (8 * idx.toNat + 7)) := by
  have inRange : (idx ≤ 14#128) ↔ idx.toNat ≤ 14 := by simp [BitVec.le_def]
  refine ⟨fun large => by simp [signextendInstr, mt inRange.mp (by omega)], fun small i inside => ?_⟩
  have bitpos := toNat_bitpos small
  simp only [signextendInstr, inRange.mpr small, decide_true, if_true]
  generalize ((idx.setWidth 4).setWidth 64 * 8#64 + 7#64).setWidth 128 = bitposEx at bitpos ⊢
  have power : 2 ^ (8 * idx.toNat + 7) < 2 ^ 128 := Nat.pow_lt_pow_right (by decide) (by omega)
  have shifted : (1#128 <<< bitposEx).toNat = 2 ^ (8 * idx.toNat + 7) := by
    rw [BitVec.shiftLeft_eq', bitpos, BitVec.toNat_shiftLeft, BitVec.toNat_ofNat, Nat.one_shiftLeft]
    exact Nat.mod_eq_of_lt power
  have maskBits : ∀ j, ((1#128 <<< bitposEx) - 1#128).getLsbD j = decide (j < 8 * idx.toNat + 7) := by
    intro j
    have positive := Nat.one_le_two_pow (n := 8 * idx.toNat + 7)
    have maskNat : ((1#128 <<< bitposEx) - 1#128).toNat = 2 ^ (8 * idx.toNat + 7) - 1 := by
      rw [BitVec.toNat_sub, shifted, BitVec.toNat_ofNat]
      omega
    rw [← BitVec.testBit_toNat, maskNat, Nat.testBit_two_pow_sub_one]
  have tested : (word >>> bitposEx).setWidth 1 = 1#1 ↔ word.getLsbD (8 * idx.toNat + 7) = true := by
    rw [BitVec.toNat_eq, ← BitVec.testBit_toNat, Nat.testBit_eq_decide_div_mod_eq,
      BitVec.ushiftRight_eq', bitpos]
    simp [BitVec.toNat_setWidth, BitVec.toNat_ushiftRight, Nat.shiftRight_eq_div_pow]
  by_cases bit : word.getLsbD (8 * idx.toNat + 7)
  · -- a set sign bit: the word with every bit from `8k + 7` on set
    rw [if_pos (tested.mpr bit), BitVec.getLsbD_or, BitVec.getLsbD_xor, maskBits,
      BitVec.getLsbD_allOnes]
    by_cases low : i < 8 * idx.toNat + 7 <;> simp [low, inside, bit]
  · -- a clear sign bit: the word with every bit from `8k + 7` on cleared
    rw [if_neg (mt tested.mp bit), BitVec.getLsbD_and, maskBits]
    by_cases low : i < 8 * idx.toNat + 7 <;> simp [low, bit]

/-- BYTE and SIGNEXTEND on every index and word. -/
theorem bitOpcodes_correct (idx word : BitVec 128) :
    (14 < idx.toNat → signextendInstr idx word = word) ∧
    (idx.toNat ≤ 14 → ∀ i < 128, (signextendInstr idx word).getLsbD i =
      if i < 8 * idx.toNat + 7 then word.getLsbD i else word.getLsbD (8 * idx.toNat + 7)) ∧
    byteInstr idx word =
      if idx.toNat < 16 then BitVec.ofNat 128 ((beBytes 16 word.toNat).getD idx.toNat 0).toNat
      else 0#128 :=
  ⟨(signextend_getLsbD idx word).1, (signextend_getLsbD idx word).2, byte_eq idx word⟩

theorem signextendInstr_eq_signExtend {k : Nat} (positive : 0 < k) (small : k < 16)
    (word : BitVec 128) :
    signextendInstr (BitVec.ofNat 128 (k - 1)) word = (word.setWidth (8 * k)).signExtend 128 := by
  have idx : (BitVec.ofNat 128 (k - 1)).toNat = k - 1 := by
    rw [BitVec.toNat_ofNat]
    exact Nat.mod_eq_of_lt (by omega)
  have extended := (signextend_getLsbD (BitVec.ofNat 128 (k - 1)) word).2 (by omega)
  apply BitVec.eq_of_getLsbD_eq
  intro i inside
  have last : 8 * (k - 1) + 7 = 8 * k - 1 := by omega
  rw [extended i inside, idx, last, BitVec.getLsbD_signExtend, BitVec.msb_eq_getLsbD_last]
  by_cases low : i < 8 * k - 1
  · simp [low, show i < 8 * k by omega, inside]
  · by_cases sign : i < 8 * k
    · obtain rfl : i = 8 * k - 1 := by omega
      simp [sign, inside]
    · simp [low, sign, inside, show 8 * k - 1 < 8 * k by omega]

-- Index 16 aliases index 0 in its low four bits, and still reads 0.
example : byteInstr 0#128 (0xab#128 <<< 120) = 0xab#128 ∧ byteInstr 16#128 (0xab#128 <<< 120) = 0#128 ∧
    signextendInstr 0#128 0x80#128 = BitVec.allOnes 128 - 0x7f#128 := by
  decide +kernel

end AionFastVM.Jit
