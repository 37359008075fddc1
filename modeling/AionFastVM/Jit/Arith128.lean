import AionFastVM.Jit.Instruction
import Mathlib.Data.BitVec
import Mathlib.Data.Nat.Size
import Mathlib.Tactic.Ring

/-!
# The 128-bit arithmetic of `Arith128`

EXP, folded for constants and emitted as a loop otherwise, and the division routines that
`LowerEVMPass` calls in place of LLVM's division instructions.
-/

namespace AionFastVM.Jit

/-! ## EXP -/

theorem toNat_pos_of_ne_zero {w : Nat} {x : BitVec w} (nonzero : x ≠ 0#w) : 0 < x.toNat :=
  Nat.pos_of_ne_zero fun zero => nonzero (BitVec.eq_of_toNat_eq (by simpa using zero))

theorem toNat_ushiftRight_one_lt {w : Nat} {e : BitVec w} (nonzero : e ≠ 0#w) :
    (e >>> 1).toNat < e.toNat := by
  have positive := toNat_pos_of_ne_zero nonzero
  rw [BitVec.toNat_ushiftRight, Nat.shiftRight_one]
  omega

def expFoldLoop (r b e : BitVec 128) : BitVec 128 :=
  if _ : e ≠ 0#128 then
    let r := if e.getLsbD 0 then r * b else r
    expFoldLoop r (b * b) (e >>> 1)
  else r
termination_by e.toNat
decreasing_by exact toNat_ushiftRight_one_lt ‹e ≠ 0#128›

def expFold (base exponent : BitVec 128) : BitVec 128 := expFoldLoop 1#128 base exponent

def expFuncLoop (r b e : BitVec 128) : BitVec 128 :=
  if _ : e ≠ 0#128 then
    let r1 := if e &&& 1#128 ≠ 0#128 then r * b else r
    let b1 := b * b
    let e1 := e >>> 1#128
    expFuncLoop r1 b1 e1
  else r
termination_by e.toNat
decreasing_by exact toNat_ushiftRight_one_lt ‹e ≠ 0#128›

def expFunc (base exponent : BitVec 128) : BitVec 128 := expFuncLoop 1#128 base exponent

def exp (constants : Bool) (base exponent : BitVec 128) : BitVec 128 :=
  if constants then expFold base exponent else expFunc base exponent

theorem pow_split (r b e : BitVec 128) :
    (if e.getLsbD 0 then r * b else r) * (b * b) ^ (e >>> 1).toNat = r * b ^ e.toNat := by
  have halves : e.toNat = 2 * (e >>> 1).toNat + e.toNat % 2 := by
    rw [BitVec.toNat_ushiftRight, Nat.shiftRight_one]
    omega
  have lowBit : e.getLsbD 0 = decide (e.toNat % 2 = 1) := by
    rw [← BitVec.testBit_toNat, Nat.testBit_eq_decide_div_mod_eq, Nat.pow_zero, Nat.div_one]
  rw [halves, lowBit]
  rcases Nat.mod_two_eq_zero_or_one e.toNat with even | odd
  · simp only [even, zero_ne_one, decide_false, Bool.false_eq_true, if_false, Nat.add_zero]
    ring
  · simp only [odd, decide_true, if_true]
    ring

theorem expFoldLoop_eq (r b e : BitVec 128) : expFoldLoop r b e = r * b ^ e.toNat := by
  fun_induction expFoldLoop r b e with
  | case1 r b e nonzero r' ih =>
    rw [ih]
    exact pow_split r b e
  | case2 r b e zero =>
    have : e = 0#128 := by simpa using zero
    simp [this]

theorem expFuncLoop_eq (r b e : BitVec 128) : expFuncLoop r b e = r * b ^ e.toNat := by
  fun_induction expFuncLoop r b e with
  | case1 r b e nonzero r1 b1 e1 ih =>
    have odd : (e &&& 1#128 ≠ 0#128) ↔ e.getLsbD 0 = true := by
      rw [← BitVec.testBit_toNat, Nat.testBit_eq_decide_div_mod_eq, Ne, BitVec.toNat_eq]
      simp [BitVec.toNat_and, Nat.and_one_is_mod]
    have shifted : e1 = e >>> 1 := BitVec.ushiftRight_eq' e 1#128
    have same : r1 = if e.getLsbD 0 then r * b else r := by
      by_cases bit : e.getLsbD 0 <;> simp [r1, bit, odd]
    rw [ih, same, shifted, pow_split]
  | case2 r b e zero =>
    have : e = 0#128 := by simpa using zero
    simp [this]

theorem toNat_pow (b : BitVec 128) (e : Nat) : (b ^ e).toNat = b.toNat ^ e % 2 ^ 128 := by
  induction e with
  | zero => rfl
  | succ e ih =>
    rw [BitVec.pow_succ, BitVec.toNat_mul, ih, Nat.mod_mul_mod, ← Nat.pow_succ]

def JITSchedule.expByteGas : Int := 10

open Revision in
def expByteCost (rev : Revision) : Int :=
  if aion ≤ rev then 1 else if spuriousDragon ≤ rev then 50 else JITSchedule.expByteGas

def ctlz {w : Nat} (x : BitVec w) : Nat := w - x.toNat.size

/-- `GasMeter::countExp`; its 64-bit arithmetic does not wrap, since `lz` is at most 128. -/
def countExp (rev : Revision) (exponent : BitVec 128) : Int :=
  let lz := ctlz exponent
  let sigBits := 128 - lz
  let sigBytes := (sigBits + 7) / 8
  sigBytes * expByteCost rev

theorem size_le_128 (x : BitVec 128) : x.toNat.size ≤ 128 := Nat.size_le.mpr x.isLt

theorem sigBytes_spec (x : BitVec 128) :
    x.toNat < 256 ^ ((128 - ctlz x + 7) / 8) ∧
      (0 < (128 - ctlz x + 7) / 8 → 256 ^ ((128 - ctlz x + 7) / 8 - 1) ≤ x.toNat) := by
  have sigBits : 128 - ctlz x = x.toNat.size := by
    have := size_le_128 x
    unfold ctlz
    omega
  have bytes : ∀ k, (256 : Nat) ^ k = 2 ^ (8 * k) := fun k => by rw [Nat.pow_mul]
  rw [sigBits]
  constructor
  · rw [bytes]
    exact lt_of_lt_of_le (Nat.lt_size_self _) (Nat.pow_le_pow_right (by decide) (by omega))
  · intro positive
    rw [bytes]
    have highBit : 2 ^ (x.toNat.size - 1) ≤ x.toNat := Nat.lt_size.mp (by omega)
    exact le_trans (Nat.pow_le_pow_right (by decide) (by omega)) highBit

/-- Both ways of computing EXP give the base's power; under AION the meter charges a gas for each
byte of the exponent's shortest big-endian encoding. -/
theorem exp_paths_agree (base exponent : BitVec 128) :
    (∀ constants, (exp constants base exponent).toNat = base.toNat ^ exponent.toNat % 2 ^ 128) ∧
    ∀ rev, Revision.aion ≤ rev →
      countExp rev exponent = ((128 - ctlz exponent + 7) / 8 : Nat) ∧
      exponent.toNat < 256 ^ ((128 - ctlz exponent + 7) / 8) ∧
      (0 < (128 - ctlz exponent + 7) / 8 →
        256 ^ ((128 - ctlz exponent + 7) / 8 - 1) ≤ exponent.toNat) ∧
      (exponent = 0#128 → countExp rev exponent = 0) := by
  refine ⟨fun constants => ?_, fun rev aion => ?_⟩
  · cases constants
    · rw [exp, if_neg Bool.false_ne_true, expFunc, expFuncLoop_eq, BitVec.one_mul, toNat_pow]
    · rw [exp, if_pos rfl, expFold, expFoldLoop_eq, BitVec.one_mul, toNat_pow]
  · have perByte : expByteCost rev = 1 := by simp [expByteCost, aion]
    have charged : countExp rev exponent = ((128 - ctlz exponent + 7) / 8 : Nat) := by
      simp only [countExp, perByte, Int.mul_one]
    refine ⟨charged, (sigBytes_spec exponent).1, (sigBytes_spec exponent).2, fun zero => ?_⟩
    rw [charged, zero]
    rfl

example : expFunc 0#128 0#128 = 1#128 ∧ expFold 3#128 5#128 = 243#128 ∧
    countExp .aion 0x100#128 = 2 ∧ countExp .aion 0#128 = 0 := by
  decide +kernel

/-! ## Division

What `llvm.ctlz` gives zero is an argument; each result has one use, so one value a call covers
every reading. Where `sub nuw` wraps the Loop block branches on poison, and where `shl` shifts by
the width or more the returned values are poison.
-/

section Division
variable {w : Nat}

theorem toNat_one_of_ne_zero {x : BitVec w} (nonzero : x ≠ 0#w) : (1#w).toNat = 1 := by
  have positive := toNat_pos_of_ne_zero nonzero
  have fits := x.isLt
  exact Nat.mod_eq_of_lt (by omega)

theorem toNat_sub_one {i : BitVec w} (nonzero : i ≠ 0#w) : (i - 1#w).toNat = i.toNat - 1 := by
  have one := toNat_one_of_ne_zero nonzero
  have positive := toNat_pos_of_ne_zero nonzero
  rw [BitVec.toNat_sub_of_le (BitVec.le_def.mpr (by omega)), one]

/-- `llvm.ctlz` with zero undefined: `undef` is the value it gives zero. -/
def ctlzZeroUndef (undef x : BitVec w) : BitVec w :=
  if x = 0#w then undef else BitVec.ofNat w (ctlz x)

theorem ctlzZeroUndef_zero (undef : BitVec w) : ctlzZeroUndef undef 0#w = undef := if_pos rfl

def udivRemLoop (y r i q : BitVec w) : BitVec w × BitVec w :=
  -- poison where `r < y`, where the select below does not take it
  let rUpdate := r - y
  -- q's lowest bit is 0 here, so the or adds one
  let qUpdate := q ||| 1#w
  let rGEy := decide (y ≤ r)
  let r1 := if rGEy then rUpdate else r
  let q1 := if rGEy then qUpdate else q
  if _ : i = 0#w then (q1, r1)
  else
    let i2 := i - 1#w
    let q2 := q1 <<< 1#w
    let y2 := y >>> 1#w
    udivRemLoop y2 r1 i2 q2
termination_by i.toNat
decreasing_by
  have nonzero : i ≠ 0#w := ‹_›
  have positive := toNat_pos_of_ne_zero nonzero
  rw [toNat_sub_one nonzero]
  omega

/-- Main's counter `i0`, a `sub nuw`: poison, `none`, where it wraps. -/
def shiftCount (undefY undefR x y : BitVec w) : Option (BitVec w) :=
  let yLz := ctlzZeroUndef undefY y
  let rLz := ctlzZeroUndef undefR x
  if rLz ≤ yLz then some (yLz - rLz) else none

/-- `createUDivRemFunc`: `none` where the Loop block branches on poison, `some none` where it
returns poison. -/
def udivRem (undefY undefR x y : BitVec w) : Option (Option (BitVec w × BitVec w)) :=
  let yLEx := decide (y ≤ x)
  let r0 := x
  if yLEx then
    (shiftCount undefY undefR r0 y).map fun i0 =>
      if i0.toNat < w then some (udivRemLoop (y <<< i0) r0 i0 0#w) else none
  else some (some (0#w, r0))

def udiv (undefY undefR x y : BitVec w) : Option (Option (BitVec w)) :=
  (udivRem undefY undefR x y).map (Option.map Prod.fst)

def urem (undefY undefR x y : BitVec w) : Option (Option (BitVec w)) :=
  (udivRem undefY undefR x y).map (Option.map Prod.snd)

structure DivInv (x y : Nat) (ys r i q : BitVec w) : Prop where
  shifted : ys.toNat = y * 2 ^ i.toNat
  splits : q.toNat * ys.toNat + r.toNat = x
  below : r.toNat < 2 * ys.toNat
  even : q.toNat % 2 = 0

theorem toNat_or_one {q : BitVec w} (one : (1#w).toNat = 1) (even : q.toNat % 2 = 0) :
    (q ||| 1#w).toNat = q.toNat + 1 := by
  have halves : q.toNat = (q.toNat / 2) <<< 1 := by
    rw [Nat.shiftLeft_eq, Nat.pow_one]
    omega
  rw [BitVec.toNat_or, one, halves,
    ← Nat.shiftLeft_add_eq_or_of_lt (show 1 < 2 ^ 1 by decide) (q.toNat / 2)]

theorem DivInv.body {x y : Nat} {ys r i q : BitVec w} (inv : DivInv x y ys r i q)
    (one : (1#w).toNat = 1) :
    (if decide (ys ≤ r) then q ||| 1#w else q).toNat * ys.toNat +
        (if decide (ys ≤ r) then r - ys else r).toNat = x ∧
      (if decide (ys ≤ r) then r - ys else r).toNat < ys.toNat := by
  have splits := inv.splits
  have below := inv.below
  by_cases fits : ys ≤ r
  · have le := BitVec.le_def.mp fits
    simp only [fits, decide_true, if_true, toNat_or_one one inv.even, BitVec.toNat_sub_of_le fits,
      Nat.succ_mul]
    omega
  · have lt : r.toNat < ys.toNat := by simpa [BitVec.le_def] using fits
    simp only [fits, decide_false, Bool.false_eq_true, if_false]
    exact ⟨splits, lt⟩

theorem quotient_of_body {x y : Nat} {ys r q : BitVec w} (positive : 0 < y) (unshifted : ys.toNat = y)
    (body : q.toNat * ys.toNat + r.toNat = x ∧ r.toNat < ys.toNat) :
    q.toNat = x / y ∧ r.toNat = x % y := by
  rw [unshifted] at body
  have unique := (@Nat.div_mod_unique y x q.toNat r.toNat positive).mpr
    ⟨by rw [Nat.mul_comm]; omega, body.2⟩
  exact ⟨unique.1.symm, unique.2.symm⟩

theorem DivInv.next {x y : Nat} {ys r i q r1 q1 : BitVec w} (inv : DivInv x y ys r i q)
    (fits : x < 2 ^ w) (positive : 0 < y) (moving : i ≠ 0#w)
    (body : q1.toNat * ys.toNat + r1.toNat = x ∧ r1.toNat < ys.toNat) :
    DivInv x y (ys >>> 1#w) r1 (i - 1#w) (q1 <<< 1#w) := by
  have one := toNat_one_of_ne_zero moving
  have counted := toNat_pos_of_ne_zero moving
  obtain ⟨k, hk⟩ : ∃ k, i.toNat = k + 1 := ⟨i.toNat - 1, by omega⟩
  have half : ys.toNat = 2 * (y * 2 ^ k) := by rw [inv.shifted, hk, Nat.pow_succ]; ring
  have down : (ys >>> 1#w).toNat = y * 2 ^ k := by
    rw [BitVec.ushiftRight_eq', one, BitVec.toNat_ushiftRight, Nat.shiftRight_one, half]
    omega
  have least : 1 ≤ y * 2 ^ k := Nat.one_le_iff_ne_zero.mpr (by positivity)
  have doubled : q1.toNat * 2 < 2 ^ w := by
    calc q1.toNat * 2 ≤ q1.toNat * ys.toNat := Nat.mul_le_mul_left _ (by omega)
      _ ≤ x := by omega
      _ < 2 ^ w := fits
  have up : (q1 <<< 1#w).toNat = q1.toNat * 2 := by
    rw [BitVec.shiftLeft_eq', one, BitVec.toNat_shiftLeft, Nat.shiftLeft_eq, Nat.pow_one,
      Nat.mod_eq_of_lt doubled]
  refine ⟨?_, ?_, ?_, ?_⟩
  · rw [down, toNat_sub_one moving, hk, Nat.add_sub_cancel]
  · have rebalanced : q1.toNat * 2 * (y * 2 ^ k) = q1.toNat * ys.toNat := by rw [half]; ring
    rw [up, down, rebalanced]
    exact body.1
  · rw [down]
    omega
  · rw [up]
    omega

theorem udivRemLoop_spec {x y : Nat} (fits : x < 2 ^ w) (positive : 0 < y) {ys r i q : BitVec w}
    (inv : DivInv x y ys r i q) :
    (udivRemLoop ys r i q).1.toNat = x / y ∧ (udivRemLoop ys r i q).2.toNat = x % y := by
  have one : (1#w).toNat = 1 := by
    have nonzero : ys ≠ 0#w := fun zero => by
      have := inv.shifted
      rw [zero, BitVec.toNat_zero] at this
      exact absurd this.symm (Nat.ne_of_gt (by positivity))
    exact toNat_one_of_ne_zero nonzero
  fun_induction udivRemLoop ys r i q with
  | case1 ys r q rUpdate qUpdate rGEy r1 q1 =>
    have unshifted : ys.toNat = y := by rw [inv.shifted]; simp
    exact quotient_of_body positive unshifted (inv.body one)
  | case2 ys r i q rUpdate qUpdate rGEy r1 q1 moving i2 q2 y2 ih =>
    exact ih (inv.next fits positive moving (inv.body one))

theorem toNat_ctlzZeroUndef {undef x : BitVec w} (nonzero : x ≠ 0#w) :
    (ctlzZeroUndef undef x).toNat = w - x.toNat.size := by
  have small : w - x.toNat.size < 2 ^ w := lt_of_le_of_lt (Nat.sub_le _ _) Nat.lt_two_pow_self
  rw [ctlzZeroUndef, if_neg nonzero, BitVec.toNat_ofNat, ctlz, Nat.mod_eq_of_lt small]

theorem ne_zero_of_le {x y : BitVec w} (nonzero : y ≠ 0#w) (le : y ≤ x) : x ≠ 0#w := by
  intro zero
  have le' := BitVec.le_def.mp le
  have yPos := toNat_pos_of_ne_zero nonzero
  rw [zero, BitVec.toNat_zero] at le'
  omega

theorem ctlzZeroUndef_le {x y : BitVec w} (undefY undefR : BitVec w) (nonzero : y ≠ 0#w)
    (le : y ≤ x) : ctlzZeroUndef undefR x ≤ ctlzZeroUndef undefY y := by
  have sizes : y.toNat.size ≤ x.toNat.size := Nat.size_le_size (BitVec.le_def.mp le)
  rw [BitVec.le_def, toNat_ctlzZeroUndef nonzero, toNat_ctlzZeroUndef (ne_zero_of_le nonzero le)]
  omega

theorem shiftCount_of_ne_zero {x y : BitVec w} (undefY undefR : BitVec w) (nonzero : y ≠ 0#w)
    (le : y ≤ x) :
    shiftCount undefY undefR x y = some (ctlzZeroUndef undefY y - ctlzZeroUndef undefR x) := by
  rw [shiftCount, if_pos (ctlzZeroUndef_le undefY undefR nonzero le)]

theorem toNat_shiftCount {x y : BitVec w} (undefY undefR : BitVec w) (nonzero : y ≠ 0#w)
    (le : y ≤ x) :
    (ctlzZeroUndef undefY y - ctlzZeroUndef undefR x).toNat = x.toNat.size - y.toNat.size := by
  have sizes : y.toNat.size ≤ x.toNat.size := Nat.size_le_size (BitVec.le_def.mp le)
  have sizeX : x.toNat.size ≤ w := Nat.size_le.mpr x.isLt
  rw [BitVec.toNat_sub_of_le (ctlzZeroUndef_le undefY undefR nonzero le),
    toNat_ctlzZeroUndef nonzero, toNat_ctlzZeroUndef (ne_zero_of_le nonzero le)]
  omega

theorem toNat_shiftCount_lt {x y : BitVec w} (undefY undefR : BitVec w) (nonzero : y ≠ 0#w)
    (le : y ≤ x) : (ctlzZeroUndef undefY y - ctlzZeroUndef undefR x).toNat < w := by
  have sizeX : x.toNat.size ≤ w := Nat.size_le.mpr x.isLt
  have sizeY : 0 < y.toNat.size := Nat.size_pos.mpr (toNat_pos_of_ne_zero nonzero)
  have fitsY : y.toNat.size ≤ w := Nat.size_le.mpr y.isLt
  rw [toNat_shiftCount undefY undefR nonzero le]
  omega

theorem divInv_start {x y : BitVec w} (undefY undefR : BitVec w) (nonzero : y ≠ 0#w)
    (le : y ≤ x) :
    DivInv x.toNat y.toNat
      (y <<< (ctlzZeroUndef undefY y - ctlzZeroUndef undefR x)) x
      (ctlzZeroUndef undefY y - ctlzZeroUndef undefR x) 0#w := by
  have yPos := toNat_pos_of_ne_zero nonzero
  have le' := BitVec.le_def.mp le
  have sizes : y.toNat.size ≤ x.toNat.size := Nat.size_le_size le'
  have sizeX : x.toNat.size ≤ w := Nat.size_le.mpr x.isLt
  have sizeY : 0 < y.toNat.size := Nat.size_pos.mpr yPos
  have gap := toNat_shiftCount undefY undefR nonzero le
  have top : 2 ^ (y.toNat.size - 1) * 2 ^ (x.toNat.size - y.toNat.size) * 2 = 2 ^ x.toNat.size := by
    rw [← Nat.pow_add, ← Nat.pow_succ]
    congr 1
    omega
  have shiftedFits : y.toNat * 2 ^ (x.toNat.size - y.toNat.size) < 2 ^ w :=
    calc y.toNat * 2 ^ (x.toNat.size - y.toNat.size)
        < 2 ^ y.toNat.size * 2 ^ (x.toNat.size - y.toNat.size) :=
          Nat.mul_lt_mul_of_pos_right (Nat.lt_size_self _) (by positivity)
      _ = 2 ^ x.toNat.size := by rw [← Nat.pow_add]; congr 1; omega
      _ ≤ 2 ^ w := Nat.pow_le_pow_right (by decide) sizeX
  have shifted : (y <<< (ctlzZeroUndef undefY y - ctlzZeroUndef undefR x)).toNat =
      y.toNat * 2 ^ (x.toNat.size - y.toNat.size) := by
    rw [BitVec.shiftLeft_eq', gap, BitVec.toNat_shiftLeft, Nat.shiftLeft_eq,
      Nat.mod_eq_of_lt shiftedFits]
  refine ⟨by rw [shifted, gap], by simp, ?_, by simp⟩
  have leading : 2 ^ (y.toNat.size - 1) ≤ y.toNat := Nat.lt_size.mp (by omega)
  calc x.toNat < 2 ^ x.toNat.size := Nat.lt_size_self _
    _ = 2 ^ (y.toNat.size - 1) * 2 ^ (x.toNat.size - y.toNat.size) * 2 := top.symm
    _ ≤ y.toNat * 2 ^ (x.toNat.size - y.toNat.size) * 2 :=
        Nat.mul_le_mul_right _ (Nat.mul_le_mul_right _ leading)
    _ = 2 * (y <<< (ctlzZeroUndef undefY y - ctlzZeroUndef undefR x)).toNat := by
        rw [shifted, Nat.mul_comm]

theorem udivRem_eq (undefY undefR x y : BitVec w) (nonzero : y ≠ 0#w) :
    udivRem undefY undefR x y = some (some (x / y, x % y)) := by
  have positive := toNat_pos_of_ne_zero nonzero
  by_cases le : y ≤ x
  · have loop := udivRemLoop_spec x.isLt positive (divInv_start undefY undefR nonzero le)
    have below := toNat_shiftCount_lt undefY undefR nonzero le
    simp only [udivRem, le, decide_true, shiftCount_of_ne_zero undefY undefR nonzero le,
      Option.map_some, below, ↓reduceIte, Option.some.injEq]
    ext1
    · exact BitVec.eq_of_toNat_eq (by rw [loop.1, BitVec.toNat_udiv])
    · exact BitVec.eq_of_toNat_eq (by rw [loop.2, BitVec.toNat_umod])
  · -- a divisor above the dividend leaves quotient 0 and the dividend as remainder
    have lt : x.toNat < y.toNat := by simpa [BitVec.le_def] using le
    simp only [udivRem, le, decide_false, Bool.false_eq_true, if_false, Option.some.injEq]
    ext1
    · exact BitVec.eq_of_toNat_eq (by rw [BitVec.toNat_udiv, Nat.div_eq_of_lt lt]; rfl)
    · exact BitVec.eq_of_toNat_eq (by rw [BitVec.toNat_umod, Nat.mod_eq_of_lt lt])

def udivRemLoopTurns (i : BitVec w) : Nat :=
  if _ : i = 0#w then 1 else udivRemLoopTurns (i - 1#w) + 1
termination_by i.toNat
decreasing_by
  have nonzero : i ≠ 0#w := ‹_›
  have positive := toNat_pos_of_ne_zero nonzero
  rw [toNat_sub_one nonzero]
  omega

def udivRemTurns (undefY undefR x y : BitVec w) : Option Nat :=
  if y ≤ x then (shiftCount undefY undefR x y).map udivRemLoopTurns else some 0

theorem udivRemLoopTurns_eq (i : BitVec w) : udivRemLoopTurns i = i.toNat + 1 := by
  fun_induction udivRemLoopTurns i with
  | case1 => rw [BitVec.toNat_zero]
  | case2 i nonzero ih =>
    have positive := toNat_pos_of_ne_zero nonzero
    rw [ih, toNat_sub_one nonzero]
    omega

theorem udivRemTurns_le (undefY undefR x : BitVec w) {y : BitVec w} (nonzero : y ≠ 0#w) :
    ∃ turns, udivRemTurns undefY undefR x y = some turns ∧ turns ≤ w := by
  unfold udivRemTurns
  split
  case isTrue le =>
    refine ⟨udivRemLoopTurns (ctlzZeroUndef undefY y - ctlzZeroUndef undefR x),
      by rw [shiftCount_of_ne_zero undefY undefR nonzero le, Option.map_some], ?_⟩
    rw [udivRemLoopTurns_eq]
    exact toNat_shiftCount_lt undefY undefR nonzero le
  case isFalse => exact ⟨0, rfl, Nat.zero_le w⟩

theorem udivRemLoop_of_zero (positive : 0 < w) {ys r i q : BitVec w} (zero : ys = 0#w) :
    (udivRemLoop ys r i q).2 = r ∧ (udivRemLoop ys r i q).1.getLsbD 0 = true := by
  fun_induction udivRemLoop ys r i q with
  | case1 ys r q rUpdate qUpdate rGEy r1 q1 =>
    subst zero
    have nonneg : 0#w ≤ r := by simp [BitVec.le_def]
    simp [r1, q1, rGEy, rUpdate, qUpdate, positive, nonneg]
  | case2 ys r i q rUpdate qUpdate rGEy r1 q1 moving i2 q2 y2 ih =>
    obtain ⟨kept, low⟩ := ih (by simp [y2, zero])
    exact ⟨kept.trans (by simp [r1, rUpdate, zero]), low⟩

theorem zero_le_entered (x : BitVec w) : decide (0#w ≤ x) = true := by simp [BitVec.le_def]

theorem udivRem_zero (positive : 0 < w) {undefY undefR x q r : BitVec w}
    (returns : udivRem undefY undefR x 0#w = some (some (q, r))) : r = x ∧ q.getLsbD 0 = true := by
  simp only [udivRem, zero_le_entered, if_true] at returns
  cases count : shiftCount undefY undefR x 0#w with
  | none => simp [count] at returns
  | some i0 =>
    by_cases below : i0.toNat < w
    · simp only [count, Option.map_some, below, ↓reduceIte, Option.some.injEq] at returns
      obtain ⟨kept, low⟩ := @udivRemLoop_of_zero w positive (0#w <<< i0) x i0 0#w
        (BitVec.zero_shiftLeft _)
      rw [returns] at kept low
      exact ⟨kept, low⟩
    · simp [count, below] at returns

theorem udivRem_zero_of_same_count (positive : 0 < w) (undefR x : BitVec w) :
    udivRem (ctlzZeroUndef undefR x) undefR x 0#w = some (some (1#w, x)) := by
  have count : shiftCount (ctlzZeroUndef undefR x) undefR x 0#w = some 0#w := by
    simp [shiftCount, ctlzZeroUndef_zero]
  have nonneg : 0#w ≤ x := by simp [BitVec.le_def]
  simp only [udivRem, zero_le_entered, count, Option.map_some, BitVec.toNat_zero, positive,
    ↓reduceIte]
  rw [udivRemLoop]
  simp [nonneg]

theorem udivRem_zero_of_lt {undefY undefR x : BitVec w} (wraps : undefY < ctlzZeroUndef undefR x) :
    udivRem undefY undefR x 0#w = none := by
  have poison : shiftCount undefY undefR x 0#w = none := by
    simp only [shiftCount, ctlzZeroUndef_zero, BitVec.not_le.mpr wraps, if_false]
  simp only [udivRem, zero_le_entered, if_true, poison, Option.map_none]

theorem toNat_ctlzZeroUndef_one (undef : BitVec w) (wide : 2 ≤ w) :
    (ctlzZeroUndef undef 1#w).toNat = w - 1 := by
  have one : (1#w).toNat = 1 := by
    rw [BitVec.toNat_ofNat, Nat.mod_eq_of_lt (Nat.one_lt_two_pow (by omega))]
  have oneNonzero : 1#w ≠ 0#w := fun zero => by
    rw [zero, BitVec.toNat_zero] at one
    omega
  rw [toNat_ctlzZeroUndef oneNonzero, one, Nat.size_one]

theorem udivRemTurns_allOnes (wide : 2 ≤ w) :
    udivRemTurns (BitVec.allOnes w) 0#w 1#w 0#w = some (2 ^ w - w + 1) := by
  have big : w < 2 ^ w := Nat.lt_two_pow_self
  have undefined := ctlzZeroUndef_zero (BitVec.allOnes w)
  have leadingZeros := toNat_ctlzZeroUndef_one 0#w wide
  have below : ctlzZeroUndef 0#w 1#w ≤ BitVec.allOnes w := by
    rw [BitVec.le_def, leadingZeros, BitVec.toNat_allOnes]
    omega
  have entered : 0#w ≤ 1#w := by simp [BitVec.le_def]
  rw [udivRemTurns, if_pos entered, shiftCount]
  simp only [undefined, below, ↓reduceIte, Option.map_some, Option.some.injEq]
  rw [udivRemLoopTurns_eq, BitVec.toNat_sub_of_le below, BitVec.toNat_allOnes, leadingZeros]
  omega

theorem ne_zero_of_getLsbD {q : BitVec w} (low : q.getLsbD 0 = true) : q ≠ 0#w := by
  intro zero
  rw [zero, BitVec.getLsbD_zero] at low
  cases low

theorem udivRem_zero_ne_zero (positive : 0 < w) {undefY undefR x q r : BitVec w}
    (returns : udivRem undefY undefR x 0#w = some (some (q, r))) : r = x ∧ q ≠ 0#w := by
  obtain ⟨kept, low⟩ := udivRem_zero positive returns
  exact ⟨kept, ne_zero_of_getLsbD low⟩

theorem udivRem_one_zero (wide : 2 ≤ w) : udivRem 0#w 0#w 1#w 0#w = none := by
  apply udivRem_zero_of_lt
  rw [BitVec.lt_def, toNat_ctlzZeroUndef_one 0#w wide, BitVec.toNat_zero]
  omega

/-- `createUDivRemFunc` does not return 0 and 0 for a zero divisor, as its header comment says. -/
theorem udivRem_zero_divisor_misses_zero :
    (∀ undefY undefR x q r : BitVec 128,
        udivRem undefY undefR x 0#128 = some (some (q, r)) → r = x ∧ q ≠ 0#128) ∧
      (∀ undefY undefR x q r : BitVec 256,
        udivRem undefY undefR x 0#256 = some (some (q, r)) → r = x ∧ q ≠ 0#256) ∧
      (∀ undefR x : BitVec 128,
        udivRem (ctlzZeroUndef undefR x) undefR x 0#128 = some (some (1#128, x))) ∧
      (∀ undefR x : BitVec 256,
        udivRem (ctlzZeroUndef undefR x) undefR x 0#256 = some (some (1#256, x))) ∧
      udivRem 0#128 0#128 1#128 0#128 = none ∧ udivRem 0#256 0#256 1#256 0#256 = none ∧
      udivRemTurns (BitVec.allOnes 128) 0#128 1#128 0#128 = some (2 ^ 128 - 127) ∧
      udivRemTurns (BitVec.allOnes 256) 0#256 1#256 0#256 = some (2 ^ 256 - 255) := by
  refine ⟨fun _ _ _ _ _ returns => udivRem_zero_ne_zero (by decide) returns,
    fun _ _ _ _ _ returns => udivRem_zero_ne_zero (by decide) returns,
    fun undefR x => udivRem_zero_of_same_count (by decide) undefR x,
    fun undefR x => udivRem_zero_of_same_count (by decide) undefR x,
    udivRem_one_zero (by decide), udivRem_one_zero (by decide), ?_, ?_⟩
  · rw [udivRemTurns_allOnes (by decide)]
    norm_num
  · rw [udivRemTurns_allOnes (by decide)]
    norm_num

def sdivRem (undefY undefR x y : BitVec w) : Option (Option (BitVec w × BitVec w)) :=
  let xIsNeg := x.slt 0#w
  let xNeg := 0#w - x
  let xAbs := if xIsNeg then xNeg else x
  let yIsNeg := y.slt 0#w
  let yNeg := 0#w - y
  let yAbs := if yIsNeg then yNeg else y
  (udivRem undefY undefR xAbs yAbs).map <| Option.map fun res =>
    let qAbs := res.1
    let rAbs := res.2
    let rNeg := 0#w - rAbs
    let r := if xIsNeg then rNeg else rAbs
    let qNeg := 0#w - qAbs
    let xyOpposite := xor xIsNeg yIsNeg
    let q := if xyOpposite then qNeg else qAbs
    (q, r)

def sdiv (undefY undefR x y : BitVec w) : Option (Option (BitVec w)) :=
  (sdivRem undefY undefR x y).map (Option.map Prod.fst)

def srem (undefY undefR x y : BitVec w) : Option (Option (BitVec w)) :=
  (sdivRem undefY undefR x y).map (Option.map Prod.snd)

theorem sdivRem_eq (undefY undefR x y : BitVec w) (nonzero : y ≠ 0#w) :
    sdivRem undefY undefR x y = some (some (x.sdiv y, x.srem y)) := by
  have negated : -y ≠ 0#w := fun zero => nonzero (BitVec.neg_eq_zero_iff.mp zero)
  cases xSign : x.msb <;> cases ySign : y.msb <;>
    simp [sdivRem, BitVec.slt_zero_eq_msb, xSign, ySign, BitVec.zero_sub, udivRem_eq, nonzero,
      negated, BitVec.sdiv, BitVec.srem]

theorem sdiv_eq_ofInt (x y : BitVec w) : x.sdiv y = BitVec.ofInt w (x.toInt.tdiv y.toInt) :=
  BitVec.eq_of_toInt_eq (by rw [BitVec.toInt_sdiv, BitVec.toInt_ofInt])

theorem srem_eq_ofInt (x y : BitVec w) : x.srem y = BitVec.ofInt w (x.toInt.tmod y.toInt) := by
  rw [← BitVec.toInt_srem, BitVec.ofInt_toInt]

inductive DivOp where
  | udiv | urem | sdiv | srem
  deriving DecidableEq, Repr

/-- An instruction's value as LLVM defines it, `none` where LLVM leaves it undefined. -/
def DivOp.eval : DivOp → BitVec w → BitVec w → Option (BitVec w)
  | .udiv, x, y => if y = 0#w then none else some (x / y)
  | .urem, x, y => if y = 0#w then none else some (x % y)
  | .sdiv, x, y => if y = 0#w ∨ (x = BitVec.intMin w ∧ y = -1#w) then none else some (x.sdiv y)
  | .srem, x, y => if y = 0#w ∨ (x = BitVec.intMin w ∧ y = -1#w) then none else some (x.srem y)

def lowerEVM (width : Nat) : DivOp → Bool
  | .urem => width == 128 || width == 256
  | _ => width == 128

def loweredCall (undefY undefR : BitVec w) : DivOp → BitVec w → BitVec w → Option (Option (BitVec w))
  | .udiv => udiv undefY undefR
  | .urem => urem undefY undefR
  | .sdiv => sdiv undefY undefR
  | .srem => srem undefY undefR

/-- An instruction's value once `LowerEVMPass` has run: `none` where the run is undefined, `some
none` where the value is poison. -/
def lowered (undefY undefR : BitVec w) (op : DivOp) (x y : BitVec w) : Option (Option (BitVec w)) :=
  if lowerEVM w op then loweredCall undefY undefR op x y else (op.eval x y).map some

theorem loweredCall_of_ne_zero (undefY undefR : BitVec w) (op : DivOp) (x : BitVec w) {y : BitVec w}
    (nonzero : y ≠ 0#w) : ∃ v, loweredCall undefY undefR op x y = some (some v) := by
  cases op with
  | udiv => exact ⟨x / y, by simp [loweredCall, udiv, udivRem_eq _ _ _ _ nonzero]⟩
  | urem => exact ⟨x % y, by simp [loweredCall, urem, udivRem_eq _ _ _ _ nonzero]⟩
  | sdiv => exact ⟨x.sdiv y, by simp [loweredCall, sdiv, sdivRem_eq _ _ _ _ nonzero]⟩
  | srem => exact ⟨x.srem y, by simp [loweredCall, srem, sdivRem_eq _ _ _ _ nonzero]⟩

theorem lowered_of_eval {undefY undefR x y v : BitVec w} {op : DivOp} (defined : op.eval x y = some v) :
    lowered undefY undefR op x y = some (some v) := by
  unfold lowered
  split
  · -- each routine agrees with its instruction wherever that has a value
    have nonzero : y ≠ 0#w := by
      intro zero
      cases op <;> simp [DivOp.eval, zero] at defined
    cases op with
    | udiv | urem =>
      simp only [DivOp.eval, nonzero, if_false, Option.some.injEq] at defined
      simp [loweredCall, udiv, urem, udivRem_eq _ _ _ _ nonzero, defined]
    | sdiv | srem =>
      simp only [DivOp.eval, nonzero, false_or] at defined
      split at defined
      · cases defined
      · cases defined
        simp [loweredCall, sdiv, srem, sdivRem_eq _ _ _ _ nonzero]
  · rw [defined, Option.map_some]

-- Lowered, the signed minimum over -1 has a value, which LLVM's instruction does not.
example : DivOp.sdiv.eval (BitVec.intMin 128) (-1#128) = none ∧
    lowered 0#128 0#128 .sdiv (BitVec.intMin 128) (-1#128) = some (some (BitVec.intMin 128)) := by
  decide +kernel

end Division

/-! ## The division opcodes -/

def guardedDivision (op : DivOp) (undefY undefR d n : BitVec 128) : Option (Option (BitVec 128)) := do
  let divByZero := decide (n = 0#128)
  let n := if divByZero then 1#128 else n
  let r ← lowered undefY undefR op d n
  pure (if divByZero then some 0#128 else r)

def divInstr (undefY undefR d n : BitVec 128) : Option (Option (BitVec 128)) :=
  guardedDivision .udiv undefY undefR d n

def modInstr (undefY undefR d n : BitVec 128) : Option (Option (BitVec 128)) :=
  guardedDivision .urem undefY undefR d n

def guardedSignedDivision (op : DivOp) (onMinusOne undefY undefR d n : BitVec 128) :
    Option (Option (BitVec 128)) := do
  let divByZero := decide (n = 0#128)
  let divByMinusOne := decide (n = -1#128)
  let n := if divByZero then 1#128 else n
  let r ← lowered undefY undefR op d n
  let r := if divByZero then some 0#128 else r
  pure (if divByMinusOne then some onMinusOne else r)

def sdivInstr (undefY undefR d n : BitVec 128) : Option (Option (BitVec 128)) :=
  let dNeg := 0#128 - d
  guardedSignedDivision .sdiv dNeg undefY undefR d n

def smodInstr (undefY undefR d n : BitVec 128) : Option (Option (BitVec 128)) :=
  guardedSignedDivision .srem 0#128 undefY undefR d n

/-- ADDMOD and MULMOD: a zero modulus reaches the 256-bit routine, and the select drops what it
returns. -/
def guardedModArith (combine : BitVec 256 → BitVec 256 → BitVec 256) (undefY undefR : BitVec 256)
    (a b m : BitVec 128) : Option (Option (BitVec 128)) := do
  let divByZero := decide (m = 0#128)
  let a := a.setWidth 256
  let b := b.setWidth 256
  let m := m.setWidth 256
  let s := combine a b
  let s ← lowered undefY undefR .urem s m
  let s := s.map (·.setWidth 128)
  pure (if divByZero then some 0#128 else s)

def addmodInstr (undefY undefR : BitVec 256) (a b m : BitVec 128) : Option (Option (BitVec 128)) :=
  guardedModArith (· + ·) undefY undefR a b m

def mulmodInstr (undefY undefR : BitVec 256) (a b m : BitVec 128) : Option (Option (BitVec 128)) :=
  guardedModArith (· * ·) undefY undefR a b m

theorem guardedDivision_eq {op : DivOp} (lowers : lowerEVM 128 op = true)
    (undefY undefR d n : BitVec 128) :
    guardedDivision op undefY undefR d n =
      if n = 0#128 then some (some 0#128) else loweredCall undefY undefR op d n := by
  by_cases zero : n = 0#128
  · obtain ⟨v, called⟩ := loweredCall_of_ne_zero undefY undefR op d (y := 1#128) (by decide)
    simp [guardedDivision, lowered, lowers, zero, called]
  · simp [guardedDivision, lowered, lowers, zero]

theorem guardedSignedDivision_eq {op : DivOp} (lowers : lowerEVM 128 op = true)
    (onMinusOne undefY undefR d n : BitVec 128) :
    guardedSignedDivision op onMinusOne undefY undefR d n =
      if n = -1#128 then some (some onMinusOne)
        else if n = 0#128 then some (some 0#128) else loweredCall undefY undefR op d n := by
  by_cases zero : n = 0#128
  · have notMinusOne : n ≠ -1#128 := by rw [zero]; decide
    obtain ⟨v, called⟩ := loweredCall_of_ne_zero undefY undefR op d (y := 1#128) (by decide)
    simp [guardedSignedDivision, lowered, lowers, zero, called]
  · obtain ⟨v, called⟩ := loweredCall_of_ne_zero undefY undefR op d zero
    have lowersTo : lowered undefY undefR op d n = some (some v) := by
      rw [lowered, if_pos lowers, called]
    by_cases minusOne : n = -1#128
    · rw [if_pos minusOne]
      simp only [guardedSignedDivision, lowersTo, zero, decide_eq_true minusOne, decide_false,
        Bool.false_eq_true, ↓reduceIte, Option.bind_eq_bind, Option.bind_some, Option.pure_def]
    · rw [if_neg minusOne, if_neg zero, called]
      simp only [guardedSignedDivision, lowersTo, zero, minusOne, decide_false,
        Bool.false_eq_true, ↓reduceIte, Option.bind_eq_bind, Option.bind_some, Option.pure_def]

theorem setWidth_ne_zero {m : BitVec 128} (nonzero : m ≠ 0#128) : m.setWidth 256 ≠ 0#256 := by
  intro wideZero
  apply nonzero
  apply BitVec.eq_of_toNat_eq
  have := congrArg BitVec.toNat wideZero
  simp only [BitVec.toNat_setWidth, BitVec.toNat_zero] at this ⊢
  rwa [Nat.mod_eq_of_lt (lt_trans m.isLt (by decide))] at this

theorem guardedModArith_of_ne_zero (combine : BitVec 256 → BitVec 256 → BitVec 256)
    (undefY undefR : BitVec 256) (a b : BitVec 128) {m : BitVec 128} (nonzero : m ≠ 0#128) :
    guardedModArith combine undefY undefR a b m =
      some (some (BitVec.ofNat 128 ((combine (a.setWidth 256) (b.setWidth 256)).toNat % m.toNat))) := by
  have widened : (m.setWidth 256).toNat = m.toNat := by
    rw [BitVec.toNat_setWidth, Nat.mod_eq_of_lt (lt_trans m.isLt (by decide))]
  have call : lowered undefY undefR .urem (combine (a.setWidth 256) (b.setWidth 256))
      (m.setWidth 256) = some (some (combine (a.setWidth 256) (b.setWidth 256) % m.setWidth 256)) :=
    lowered_of_eval (by simp [DivOp.eval, setWidth_ne_zero nonzero])
  simp only [guardedModArith, call, nonzero, decide_false, Bool.false_eq_true, ↓reduceIte,
    Option.bind_eq_bind, Option.bind_some, Option.pure_def, Option.map_some, Option.some.injEq]
  apply BitVec.eq_of_toNat_eq
  rw [BitVec.toNat_setWidth, BitVec.toNat_umod, widened, BitVec.toNat_ofNat]

theorem guardedModArith_zero (combine : BitVec 256 → BitVec 256 → BitVec 256)
    (undefY undefR : BitVec 256) (a b : BitVec 128) :
    guardedModArith combine undefY undefR a b 0#128 =
      (udivRem undefY undefR (combine (a.setWidth 256) (b.setWidth 256)) 0#256).map
        fun _ => some 0#128 := by
  simp only [guardedModArith, lowered, lowerEVM, loweredCall, urem, decide_true,
    BitVec.setWidth_zero]
  cases udivRem undefY undefR (combine (a.setWidth 256) (b.setWidth 256)) 0#256 <;> rfl

theorem divInstr_eq (undefY undefR d n : BitVec 128) :
    divInstr undefY undefR d n = some (some (if n = 0#128 then 0#128 else d / n)) := by
  rw [divInstr, guardedDivision_eq rfl]
  by_cases zero : n = 0#128 <;> simp [zero, loweredCall, udiv, udivRem_eq]

theorem modInstr_eq (undefY undefR d n : BitVec 128) :
    modInstr undefY undefR d n = some (some (if n = 0#128 then 0#128 else d % n)) := by
  rw [modInstr, guardedDivision_eq rfl]
  by_cases zero : n = 0#128 <;> simp [zero, loweredCall, urem, udivRem_eq]

theorem toInt_minusOne : (-1#128).toInt = -1 := by decide

theorem sdivInstr_eq (undefY undefR d n : BitVec 128) :
    sdivInstr undefY undefR d n =
      some (some (if n = 0#128 then 0#128 else BitVec.ofInt 128 (d.toInt.tdiv n.toInt))) := by
  rw [sdivInstr, guardedSignedDivision_eq rfl]
  by_cases minusOne : n = -1#128
  · -- the guard's value is the quotient by -1, for the signed minimum as well
    have notZero : n ≠ 0#128 := by rw [minusOne]; decide
    have negated : BitVec.ofInt 128 (d.toInt.tdiv n.toInt) = 0#128 - d := by
      rw [minusOne, toInt_minusOne, Int.tdiv_neg, Int.tdiv_one, BitVec.ofInt_neg,
        BitVec.ofInt_toInt, BitVec.zero_sub]
    rw [if_pos minusOne, if_neg notZero, negated]
  · rw [if_neg minusOne]
    by_cases zero : n = 0#128 <;> simp [zero, loweredCall, sdiv, sdivRem_eq, sdiv_eq_ofInt]

theorem smodInstr_eq (undefY undefR d n : BitVec 128) :
    smodInstr undefY undefR d n =
      some (some (if n = 0#128 then 0#128 else BitVec.ofInt 128 (d.toInt.tmod n.toInt))) := by
  rw [smodInstr, guardedSignedDivision_eq rfl]
  by_cases minusOne : n = -1#128
  · have notZero : n ≠ 0#128 := by rw [minusOne]; decide
    have vanishes : BitVec.ofInt 128 (d.toInt.tmod n.toInt) = 0#128 := by
      rw [minusOne, toInt_minusOne, Int.tmod_neg, Int.tmod_one]
      rfl
    rw [if_pos minusOne, if_neg notZero, vanishes]
  · rw [if_neg minusOne]
    by_cases zero : n = 0#128 <;> simp [zero, loweredCall, srem, sdivRem_eq, srem_eq_ofInt]

theorem addmodInstr_of_ne_zero (undefY undefR : BitVec 256) (a b : BitVec 128) {m : BitVec 128}
    (nonzero : m ≠ 0#128) :
    addmodInstr undefY undefR a b m =
      some (some (BitVec.ofNat 128 ((a.toNat + b.toNat) % m.toNat))) := by
  have sum : (a.setWidth 256 + b.setWidth 256).toNat = a.toNat + b.toNat := by
    have := a.isLt
    have := b.isLt
    simp only [BitVec.toNat_add, BitVec.toNat_setWidth]
    omega
  rw [addmodInstr, guardedModArith_of_ne_zero _ _ _ _ _ nonzero, sum]

theorem mulmodInstr_of_ne_zero (undefY undefR : BitVec 256) (a b : BitVec 128) {m : BitVec 128}
    (nonzero : m ≠ 0#128) :
    mulmodInstr undefY undefR a b m =
      some (some (BitVec.ofNat 128 (a.toNat * b.toNat % m.toNat))) := by
  have fits : a.toNat * b.toNat < 2 ^ 256 :=
    calc a.toNat * b.toNat < 2 ^ 128 * 2 ^ 128 := Nat.mul_lt_mul'' a.isLt b.isLt
      _ = 2 ^ 256 := by rw [← Nat.pow_add]
  have product : (a.setWidth 256 * b.setWidth 256).toNat = a.toNat * b.toNat := by
    have := a.isLt
    have := b.isLt
    simp only [BitVec.toNat_mul, BitVec.toNat_setWidth]
    rw [Nat.mod_eq_of_lt (by omega : a.toNat < 2 ^ 256), Nat.mod_eq_of_lt (by omega : b.toNat < 2 ^ 256),
      Nat.mod_eq_of_lt fits]
  rw [mulmodInstr, guardedModArith_of_ne_zero _ _ _ _ _ nonzero, product]

-- Rounding toward zero: -7 / 2 is -3 with remainder -1.
example : sdivInstr 0#128 0#128 (-7#128) 2#128 = some (some (-3#128)) ∧
    smodInstr 0#128 0#128 (-7#128) 2#128 = some (some (-1#128)) := by
  decide +kernel

end AionFastVM.Jit
