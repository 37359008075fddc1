import Mathlib

/-!
# Fields of a word
-/

namespace AionFastVM.Library

variable {w : Nat}

def lowMask (w width : Nat) : BitVec w := BitVec.ofNat w (2 ^ width - 1)

def insertField (slot value : BitVec w) (shift width : Nat) : BitVec w :=
  ((value.setWidth width).setWidth w <<< shift) ||| (~~~(lowMask w width <<< shift) &&& slot)

def extractField (slot : BitVec w) (shift width : Nat) : BitVec width :=
  (slot >>> shift).setWidth width

@[simp] theorem getLsbD_lowMask (width i : Nat) :
    (lowMask w width).getLsbD i = (decide (i < w) && decide (i < width)) := by
  simp [lowMask, BitVec.getLsbD_ofNat, Nat.testBit_two_pow_sub_one]

section
variable (slot value : BitVec w) {shift width i : Nat}

theorem getLsbD_insertField_of_outside (outside : i < shift ∨ shift + width ≤ i) :
    (insertField slot value shift width).getLsbD i = slot.getLsbD i := by
  unfold insertField
  by_cases below : i < shift
  · simp [BitVec.getLsbD_shiftLeft, below]
    exact BitVec.lt_of_getLsbD
  · have above : ¬ i - shift < width := by omega
    simp [BitVec.getLsbD_shiftLeft, below, above]
    exact BitVec.lt_of_getLsbD

theorem getLsbD_insertField_of_inside (inside : shift ≤ i ∧ i < shift + width) (lt : i < w) :
    (insertField slot value shift width).getLsbD i = value.getLsbD (i - shift) := by
  have within : i - shift < width := by omega
  have notBelow : ¬ i < shift := by omega
  have narrow : i - shift < w := by omega
  unfold insertField
  simp only [BitVec.getLsbD_or, BitVec.getLsbD_and, BitVec.getLsbD_not, BitVec.getLsbD_shiftLeft,
    BitVec.getLsbD_setWidth, getLsbD_lowMask, lt, notBelow, within, narrow]
  simp

theorem extractField_insertField (fits : shift + width ≤ w) :
    extractField (insertField slot value shift width) shift width = value.setWidth width := by
  apply BitVec.eq_of_getLsbD_eq
  intro i inside
  have lt : shift + i < w := by omega
  unfold extractField
  rw [BitVec.getLsbD_setWidth, BitVec.getLsbD_ushiftRight,
    getLsbD_insertField_of_inside slot value (by omega) lt]
  simp [inside]

theorem insertField_zero :
    insertField slot 0#w shift width = ~~~(lowMask w width <<< shift) &&& slot := by
  simp [insertField]

end

theorem twoPow_pow (i k : Nat) : (BitVec.twoPow w i) ^ k = BitVec.twoPow w (i * k) := by
  induction k with
  | zero => simp [BitVec.twoPow_eq]
  | succ k ih =>
    rw [BitVec.pow_succ, ih, BitVec.twoPow_mul_twoPow_eq, Nat.mul_succ]

theorem twoPow_ne_zero {i : Nat} (lt : i < w) : BitVec.twoPow w i ≠ 0#w := by
  intro zero
  have bit := congrArg (fun x => x.getLsbD i) zero
  simp [lt] at bit

theorem twoPow_of_le {i : Nat} (long : w ≤ i) : BitVec.twoPow w i = 0#w := by
  apply BitVec.eq_of_getLsbD_eq
  intro j inside
  simp [BitVec.getLsbD_twoPow]
  omega

theorem udiv_twoPow (x : BitVec w) (i : Nat) : x / BitVec.twoPow w i = x >>> i := by
  by_cases short : i < w
  · exact BitVec.udiv_twoPow_eq_of_lt short
  · rw [twoPow_of_le (by omega), BitVec.udiv_zero]
    apply BitVec.eq_of_getLsbD_eq
    intro j inside
    simp [BitVec.getLsbD_of_ge x (i + j) (by omega)]

theorem two_pow (k : Nat) : (2#w) ^ k = BitVec.twoPow w k := by
  have two : 2#w = BitVec.twoPow w 1 := by
    apply BitVec.eq_of_toNat_eq
    simp [BitVec.toNat_twoPow]
  rw [two, twoPow_pow, Nat.one_mul]

theorem ite_udiv (x y : BitVec w) : (if y = 0#w then 0#w else x / y) = x / y := by
  split
  · rename_i zero
    rw [zero, BitVec.udiv_zero]
  · rfl

end AionFastVM.Library
