import AionFastVM.Library.ByteCodec
import Mathlib.Data.Nat.Size
import Mathlib.Data.List.Forall2
import Mathlib.Algebra.Order.Ring.Int
import Mathlib.Tactic.Positivity
import Mathlib.Tactic.Ring

/-!
# Java's big integers and byte arrays

`none` stands where Java throws.
-/

namespace AionFastVM.Library

def bitLength (value : Int) : Nat :=
  if 0 ≤ value then value.toNat.size else (-value - 1).toNat.size

def toByteArray (value : Int) : List UInt8 :=
  beBytes (bitLength value / 8 + 1) (value % 256 ^ (bitLength value / 8 + 1)).toNat

/-- `new BigInteger(byte[])`; Java refuses an empty array, which the codecs here never pass. -/
def ofByteArray (bytes : List UInt8) : Int :=
  if beValue bytes < 2 ^ (8 * bytes.length - 1) then beValue bytes
  else (beValue bytes : Int) - 2 ^ (8 * bytes.length)

def intValue (value : Int) : Int := (Int32.ofInt value).toInt

def copyOfRange (original : List UInt8) (fromIndex toIndex : Int) : Option (List UInt8) :=
  if fromIndex < 0 ∨ (original.length : Int) < fromIndex ∨ toIndex < fromIndex then none
  else
    let newLength := (toIndex - fromIndex).toNat
    some ((original.drop fromIndex.toNat ++ List.replicate newLength 0).take newLength)

@[simp] theorem length_toByteArray (value : Int) :
    (toByteArray value).length = bitLength value / 8 + 1 := by
  simp [toByteArray]

theorem pow_eq_two_pow (width : Nat) : (256 : Int) ^ width = 2 ^ (8 * width) := by
  rw [pow_mul]
  norm_num

theorem length_toByteArray_le {width : Nat} {value : Int} (positive : 0 < width)
    (low : -2 ^ (8 * width - 1) ≤ value) (high : value < 2 ^ (8 * width - 1)) :
    (toByteArray value).length ≤ width := by
  have bits : bitLength value ≤ 8 * width - 1 := by
    unfold bitLength
    split
    · case isTrue nonneg =>
      apply Nat.size_le.mpr
      have cast : ((value.toNat : Nat) : Int) < ((2 ^ (8 * width - 1) : Nat) : Int) := by
        push_cast
        omega
      exact_mod_cast cast
    · case isFalse negative =>
      apply Nat.size_le.mpr
      have cast : (((-value - 1).toNat : Nat) : Int) < ((2 ^ (8 * width - 1) : Nat) : Int) := by
        push_cast
        omega
      exact_mod_cast cast
  rw [length_toByteArray]
  omega

theorem emod_pow_of_neg {width : Nat} {value : Int} (negative : value < 0)
    (low : -(256 : Int) ^ width ≤ value) : value % 256 ^ width = value + 256 ^ width := by
  rw [← Int.add_emod_right, Int.emod_eq_of_lt (by omega) (by omega)]

theorem emod_pow_of_nonneg {width : Nat} {value : Int} (nonneg : 0 ≤ value)
    (high : value < (256 : Int) ^ width) : value % 256 ^ width = value :=
  Int.emod_eq_of_lt nonneg high

theorem beBytes_signExtend {width : Nat} {value : Int} (low : -(256 : Int) ^ width ≤ value)
    (high : value < (256 : Int) ^ width) (extra : Nat) :
    List.replicate extra (if value < 0 then 255 else 0) ++ beBytes width (value % 256 ^ width).toNat =
      beBytes (extra + width) (value % 256 ^ (extra + width)).toNat := by
  have widened : (256 : Int) ^ width ≤ 256 ^ (extra + width) :=
    pow_le_pow_right₀ (by norm_num) (Nat.le_add_left width extra)
  by_cases negative : value < 0
  · -- the high bytes are those of 256 ^ extra - 1, all 0xff
    rw [if_pos negative, emod_pow_of_neg negative low, emod_pow_of_neg negative (by omega)]
    have lowFits : (value + 256 ^ width).toNat < 256 ^ width := by
      have : ((256 ^ width : Nat) : Int) = 256 ^ width := by push_cast; rfl
      omega
    have split : (value + 256 ^ (extra + width)).toNat =
        (256 ^ extra - 1) * 256 ^ width + (value + 256 ^ width).toNat := by
      have one_le : 1 ≤ 256 ^ extra := Nat.one_le_pow _ _ (by decide)
      have cast : (((256 ^ extra - 1) * 256 ^ width + (value + 256 ^ width).toNat : Nat) : Int) =
          value + 256 ^ (extra + width) := by
        push_cast [Nat.cast_sub one_le, Int.toNat_of_nonneg (show 0 ≤ value + 256 ^ width by omega)]
        ring
      omega
    rw [split, beBytes_mul_add lowFits, beBytes_pow_sub_one]
  · rw [if_neg negative, emod_pow_of_nonneg (by omega) high,
      emod_pow_of_nonneg (by omega) (by omega)]
    have fits : value.toNat < 256 ^ width := by
      have : ((256 ^ width : Nat) : Int) = 256 ^ width := by push_cast; rfl
      omega
    rw [beBytes_add fits]

theorem fits_toByteArray (value : Int) :
    -(256 : Int) ^ (bitLength value / 8 + 1) ≤ value ∧ value < 256 ^ (bitLength value / 8 + 1) := by
  have room : (2 : Int) ^ bitLength value ≤ 256 ^ (bitLength value / 8 + 1) := by
    rw [pow_eq_two_pow]
    exact pow_le_pow_right₀ (by norm_num) (by omega)
  have positive : (0 : Int) < 256 ^ (bitLength value / 8 + 1) := by positivity
  by_cases nonneg : 0 ≤ value
  · have below : value < 2 ^ bitLength value := by
      have size : ((value.toNat : Nat) : Int) < ((2 ^ value.toNat.size : Nat) : Int) := by
        exact_mod_cast Nat.lt_size_self value.toNat
      rw [show bitLength value = value.toNat.size from if_pos nonneg]
      push_cast at size
      omega
    omega
  · have below : -value - 1 < 2 ^ bitLength value := by
      have size : (((-value - 1).toNat : Nat) : Int) < ((2 ^ (-value - 1).toNat.size : Nat) : Int) := by
        exact_mod_cast Nat.lt_size_self (-value - 1).toNat
      rw [show bitLength value = (-value - 1).toNat.size from if_neg nonneg]
      push_cast at size
      omega
    omega

theorem signExtend_toByteArray {value : Int} {width : Nat} (fits : (toByteArray value).length ≤ width) :
    List.replicate (width - (toByteArray value).length) (if value < 0 then 255 else 0) ++
      toByteArray value = beBytes width (value % 256 ^ width).toNat := by
  obtain ⟨low, high⟩ := fits_toByteArray value
  rw [length_toByteArray] at fits ⊢
  rw [toByteArray, beBytes_signExtend low high, Nat.sub_add_cancel fits]

theorem ofByteArray_beBytes {width : Nat} {value : Int} (positive : 0 < width)
    (low : -2 ^ (8 * width - 1) ≤ value) (high : value < 2 ^ (8 * width - 1)) :
    ofByteArray (beBytes width (value % 256 ^ width).toNat) = value := by
  have half : ((2 ^ (8 * width - 1) : Nat) : Int) = 2 ^ (8 * width - 1) := by push_cast; rfl
  have twice : (2 : Int) ^ (8 * width) = 2 * 2 ^ (8 * width - 1) := by
    rw [← pow_succ']
    congr 1
    omega
  have modulus := pow_eq_two_pow width
  have castModulus : ((256 ^ width : Nat) : Int) = 256 ^ width := by push_cast; rfl
  have reduced : (((value % 256 ^ width).toNat : Nat) : Int) = value % 256 ^ width :=
    Int.toNat_of_nonneg (Int.emod_nonneg value (by positivity))
  have below : value % 256 ^ width < 256 ^ width := Int.emod_lt_of_pos value (by positivity)
  have fits : (value % 256 ^ width).toNat < 256 ^ width := by omega
  rw [ofByteArray, beValue_beBytes_of_lt fits, length_beBytes]
  by_cases negative : value < 0
  · have wrapped := emod_pow_of_neg negative (show -(256 : Int) ^ width ≤ value by omega)
    split <;> omega
  · have kept := emod_pow_of_nonneg (show 0 ≤ value by omega)
      (show value < (256 : Int) ^ width by omega)
    split <;> omega

@[simp] theorem intValue_zero : intValue 0 = 0 := rfl

theorem intValue_of_lt {value : Int} (nonneg : 0 ≤ value) (small : value < 2 ^ 31) :
    intValue value = value :=
  Int32.toInt_ofInt_of_le (by omega) small

theorem copyOfRange_of_prefix_drop {original bytes : List UInt8} {fromIndex : Nat}
    (held : bytes <+: original.drop fromIndex) (inside : fromIndex ≤ original.length) {count : Nat}
    (within : count ≤ bytes.length) :
    copyOfRange original fromIndex (fromIndex + count) = some (bytes.take count) := by
  obtain ⟨rest, same⟩ := held
  have start : ¬ ((fromIndex : Int) < 0 ∨ (original.length : Int) < fromIndex ∨
      (fromIndex : Int) + count < fromIndex) := by omega
  rw [copyOfRange, if_neg start]
  simp only [Int.toNat_natCast, ← same, List.append_assoc, Option.some.injEq]
  rw [show (fromIndex : Int) + count - fromIndex = count by omega, Int.toNat_natCast,
    List.take_append_of_le_length within]

theorem prefix_drop_left {α : Type} {front back buffer : List α} {start : Nat}
    (held : front ++ back <+: buffer.drop start) : front <+: buffer.drop start :=
  (List.prefix_append front back).trans held

theorem prefix_drop_right {α : Type} {front back buffer : List α} {start : Nat}
    (held : front ++ back <+: buffer.drop start) : back <+: buffer.drop (start + front.length) := by
  obtain ⟨rest, same⟩ := held
  refine ⟨rest, ?_⟩
  rw [← List.drop_drop, ← same, List.append_assoc, List.drop_left]

theorem add_length_le_of_prefix_drop {α : Type} {run buffer : List α} {start : Nat}
    (held : run <+: buffer.drop start) (inside : start ≤ buffer.length) :
    start + run.length ≤ buffer.length := by
  have fits := held.length_le
  rw [List.length_drop] at fits
  omega

theorem exists_mapM_of_forall {α β : Type} {f : α → Option β} {P : α → β → Prop} :
    ∀ (l : List α), (∀ a ∈ l, ∃ b, f a = some b ∧ P a b) →
      ∃ bs, l.mapM f = some bs ∧ List.Forall₂ P l bs
  | [], _ => ⟨[], rfl, .nil⟩
  | a :: rest, each => by
    obtain ⟨b, made, holds⟩ := each a List.mem_cons_self
    obtain ⟨bs, madeRest, holdsRest⟩ :=
      exists_mapM_of_forall rest fun other member => each other (List.mem_cons_of_mem a member)
    exact ⟨b :: bs, by simp [made, madeRest], .cons holds holdsRest⟩

theorem forall₂_of_mapM {α β : Type} {f : α → Option β} :
    ∀ {l : List α} {bs : List β}, l.mapM f = some bs → List.Forall₂ (fun a b => f a = some b) l bs
  | [], bs, made => by
    simp only [List.mapM_nil, Option.pure_def, Option.some.injEq] at made
    subst made
    exact .nil
  | a :: rest, bs, made => by
    simp only [List.mapM_cons, Option.bind_eq_bind, Option.bind_eq_some_iff, Option.pure_def,
      Option.some.injEq] at made
    obtain ⟨b, first, others, madeRest, same⟩ := made
    subst same
    exact .cons first (forall₂_of_mapM madeRest)

theorem length_flatten_of_forall₂ {α γ : Type} {P : α → List γ → Prop} {size : Nat}
    {l : List α} {encs : List (List γ)} (pairs : List.Forall₂ P l encs)
    (sized : ∀ a enc, P a enc → enc.length = size) : encs.flatten.length = l.length * size := by
  induction pairs with
  | nil => simp
  | cons first _ ih =>
    rw [List.flatten_cons, List.length_append, ih, sized _ _ first, List.length_cons, Nat.succ_mul]
    omega

theorem dvd_length_flatten_of_forall₂ {α γ : Type} {P : α → List γ → Prop} {d : Nat}
    {l : List α} {encs : List (List γ)} (pairs : List.Forall₂ P l encs)
    (each : ∀ a enc, P a enc → d ∣ enc.length) : d ∣ encs.flatten.length := by
  induction pairs with
  | nil => simp
  | cons first _ ih =>
    rw [List.flatten_cons, List.length_append]
    exact Nat.dvd_add (each _ _ first) ih

end AionFastVM.Library
