import Mathlib

/-!
# Words of twice the width
-/

namespace AionFastVM.Library

variable {w : Nat}

def high (v : BitVec (w + w)) : BitVec w := (v >>> w).setWidth w

def low (v : BitVec (w + w)) : BitVec w := v.setWidth w

theorem getLsbD_high (v : BitVec (w + w)) (i : Nat) :
    (high v).getLsbD i = (decide (i < w) && v.getLsbD (w + i)) := by
  simp [high]

theorem getLsbD_low (v : BitVec (w + w)) (i : Nat) :
    (low v).getLsbD i = (decide (i < w) && v.getLsbD i) := by
  simp [low]

section
variable (a b : BitVec (w + w))

@[simp] theorem high_and : high (a &&& b) = high a &&& high b := by
  apply BitVec.eq_of_getLsbD_eq
  intro i inside
  simp only [getLsbD_high, BitVec.getLsbD_and, inside, decide_true, Bool.true_and]

@[simp] theorem low_and : low (a &&& b) = low a &&& low b := by
  apply BitVec.eq_of_getLsbD_eq
  intro i inside
  simp only [getLsbD_low, BitVec.getLsbD_and, inside, decide_true, Bool.true_and]

@[simp] theorem high_or : high (a ||| b) = high a ||| high b := by
  apply BitVec.eq_of_getLsbD_eq
  intro i inside
  simp only [getLsbD_high, BitVec.getLsbD_or, inside, decide_true, Bool.true_and]

@[simp] theorem low_or : low (a ||| b) = low a ||| low b := by
  apply BitVec.eq_of_getLsbD_eq
  intro i inside
  simp only [getLsbD_low, BitVec.getLsbD_or, inside, decide_true, Bool.true_and]

@[simp] theorem high_xor : high (a ^^^ b) = high a ^^^ high b := by
  apply BitVec.eq_of_getLsbD_eq
  intro i inside
  simp only [getLsbD_high, BitVec.getLsbD_xor, inside, decide_true, Bool.true_and]

@[simp] theorem low_xor : low (a ^^^ b) = low a ^^^ low b := by
  apply BitVec.eq_of_getLsbD_eq
  intro i inside
  simp only [getLsbD_low, BitVec.getLsbD_xor, inside, decide_true, Bool.true_and]

@[simp] theorem high_not : high (~~~a) = ~~~high a := by
  apply BitVec.eq_of_getLsbD_eq
  intro i inside
  simp only [getLsbD_high, BitVec.getLsbD_not, inside, decide_true, Bool.true_and,
    show w + i < w + w by omega]

@[simp] theorem low_not : low (~~~a) = ~~~low a := by
  apply BitVec.eq_of_getLsbD_eq
  intro i inside
  simp only [getLsbD_low, BitVec.getLsbD_not, inside, decide_true, Bool.true_and,
    show i < w + w by omega]

end

section
variable (v : BitVec (w + w)) {k : Nat}

theorem low_shiftLeft (k : Nat) : low (v <<< k) = low v <<< k := by
  apply BitVec.eq_of_getLsbD_eq
  intro i inside
  simp only [getLsbD_low, BitVec.getLsbD_shiftLeft, inside, decide_true, Bool.true_and,
    show i < w + w by omega, show i - k < w by omega]

theorem high_shiftLeft_of_lt (short : k < w) :
    high (v <<< k) = (high v <<< k) ||| (low v >>> (w - k)) := by
  apply BitVec.eq_of_getLsbD_eq
  intro i inside
  simp only [getLsbD_high, BitVec.getLsbD_shiftLeft, BitVec.getLsbD_or, BitVec.getLsbD_ushiftRight,
    getLsbD_low, inside, decide_true, Bool.true_and, show w + i < w + w by omega,
    show ¬ w + i < k by omega, decide_false, Bool.not_false]
  by_cases below : i < k
  · -- the bits below `k` come from the top of the low half
    have index : w + i - k = w - k + i := by omega
    simp only [below, index, show w - k + i < w by omega, decide_true, Bool.not_true,
      Bool.false_and, Bool.false_or, Bool.true_and]
  · have index : w + i - k = w + (i - k) := by omega
    simp only [below, index, show ¬ w - k + i < w by omega, show i - k < w by omega, decide_true,
      decide_false, Bool.not_false, Bool.true_and, Bool.false_and, Bool.or_false]

theorem high_shiftLeft_of_le (long : w ≤ k) : high (v <<< k) = low v <<< (k - w) := by
  apply BitVec.eq_of_getLsbD_eq
  intro i inside
  simp only [getLsbD_high, BitVec.getLsbD_shiftLeft, getLsbD_low, inside, decide_true,
    Bool.true_and, show w + i < w + w by omega]
  by_cases below : i < k - w
  · simp only [below, show w + i < k by omega, decide_true, Bool.not_true, Bool.false_and]
  · have index : w + i - k = i - (k - w) := by omega
    simp only [below, show ¬ w + i < k by omega, index, show i - (k - w) < w by omega, decide_true,
      decide_false, Bool.not_false, Bool.true_and]

theorem low_shiftLeft_of_le (long : w ≤ k) : low (v <<< k) = 0#w := by
  apply BitVec.eq_of_getLsbD_eq
  intro i inside
  simp only [getLsbD_low, BitVec.getLsbD_shiftLeft, inside, show i < k by omega, decide_true,
    Bool.not_true, Bool.and_false, Bool.false_and, BitVec.getLsbD_zero]

theorem high_ushiftRight (k : Nat) : high (v >>> k) = high v >>> k := by
  apply BitVec.eq_of_getLsbD_eq
  intro i inside
  simp only [getLsbD_high, BitVec.getLsbD_ushiftRight, inside, decide_true, Bool.true_and]
  by_cases within : k + i < w
  · simp only [within, decide_true, Bool.true_and, Nat.add_left_comm]
  · simp only [within, decide_false, Bool.false_and, BitVec.getLsbD_of_ge v (k + (w + i)) (by omega)]

theorem low_ushiftRight_of_lt (short : k < w) :
    low (v >>> k) = (low v >>> k) ||| (high v <<< (w - k)) := by
  apply BitVec.eq_of_getLsbD_eq
  intro i inside
  simp only [getLsbD_low, BitVec.getLsbD_ushiftRight, BitVec.getLsbD_or, BitVec.getLsbD_shiftLeft,
    getLsbD_high, inside, decide_true, Bool.true_and]
  by_cases within : k + i < w
  · -- below `w - k` the bits stay in the low half
    simp only [within, show i < w - k by omega, decide_true, Bool.not_true, Bool.true_and,
      Bool.false_and, Bool.or_false]
  · have index : k + i = w + (i - (w - k)) := by omega
    simp only [index, show ¬ w + (i - (w - k)) < w by omega, show ¬ i < w - k by omega,
      show i - (w - k) < w by omega, decide_true, decide_false, Bool.not_false, Bool.false_and,
      Bool.false_or, Bool.true_and]

theorem low_ushiftRight_of_le (long : w ≤ k) : low (v >>> k) = high v >>> (k - w) := by
  apply BitVec.eq_of_getLsbD_eq
  intro i inside
  simp only [getLsbD_low, BitVec.getLsbD_ushiftRight, getLsbD_high, inside, decide_true,
    Bool.true_and]
  by_cases within : k - w + i < w
  · have index : w + (k - w + i) = k + i := by omega
    simp only [within, index, decide_true, Bool.true_and]
  · simp only [within, decide_false, Bool.false_and, BitVec.getLsbD_of_ge v (k + i) (by omega)]

theorem high_ushiftRight_of_le (long : w ≤ k) : high (v >>> k) = 0#w := by
  apply BitVec.eq_of_getLsbD_eq
  intro i inside
  simp only [getLsbD_high, BitVec.getLsbD_ushiftRight, BitVec.getLsbD_zero,
    BitVec.getLsbD_of_ge v (k + (w + i)) (by omega), Bool.and_false]

end

end AionFastVM.Library
