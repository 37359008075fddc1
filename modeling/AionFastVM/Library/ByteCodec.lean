import Mathlib.Data.Vector.Defs
import Mathlib.Data.List.Induction
import Mathlib.Algebra.Order.Group.Nat

/-!
# Big-endian byte codecs
-/

namespace AionFastVM.Library

def beBytes : Nat → Nat → List UInt8
  | 0, _ => []
  | width + 1, value => beBytes width (value / 256) ++ [UInt8.ofNat value]

def beValue (bytes : List UInt8) : Nat :=
  bytes.foldl (fun acc byte => acc * 256 + byte.toNat) 0

@[simp] theorem length_beBytes (width value : Nat) : (beBytes width value).length = width := by
  induction width generalizing value with
  | zero => rfl
  | succ width ih => simp [beBytes, ih]

theorem beValue_append_single (bytes : List UInt8) (byte : UInt8) :
    beValue (bytes ++ [byte]) = beValue bytes * 256 + byte.toNat := by
  simp [beValue, List.foldl_append]

theorem beValue_replicate_append (count : Nat) (bytes : List UInt8) :
    beValue (List.replicate count 0 ++ bytes) = beValue bytes := by
  induction count with
  | zero => rfl
  | succ count ih =>
    rw [List.replicate_succ, List.cons_append, ← ih]
    simp [beValue]

theorem beValue_append_zeros (bytes : List UInt8) (count : Nat) :
    beValue (bytes ++ List.replicate count 0) = beValue bytes * 256 ^ count := by
  induction count with
  | zero => simp
  | succ count ih =>
    rw [List.replicate_succ', ← List.append_assoc, beValue_append_single, ih, Nat.pow_succ]
    simp [Nat.mul_assoc]

theorem beValue_beBytes (width value : Nat) : beValue (beBytes width value) = value % 256 ^ width := by
  induction width generalizing value with
  | zero => simp [beBytes, beValue, Nat.mod_one]
  | succ width ih =>
    have low : (UInt8.ofNat value).toNat = value % 256 := UInt8.toNat_ofNat'
    have split : value % 256 ^ (width + 1) = value % 256 + 256 * (value / 256 % 256 ^ width) := by
      rw [Nat.pow_succ, Nat.mul_comm, Nat.mod_mul]
    rw [beBytes, beValue_append_single, ih, low, split]
    omega

theorem beValue_beBytes_of_lt {width value : Nat} (fits : value < 256 ^ width) :
    beValue (beBytes width value) = value := by
  rw [beValue_beBytes, Nat.mod_eq_of_lt fits]

theorem beBytes_beValue (bytes : List UInt8) : beBytes bytes.length (beValue bytes) = bytes := by
  induction bytes using List.reverseRec with
  | nil => rfl
  | append_singleton bytes byte ih =>
    have below := byte.toNat_lt
    have high : (beValue bytes * 256 + byte.toNat) / 256 = beValue bytes := by omega
    have low : UInt8.ofNat (beValue bytes * 256 + byte.toNat) = byte := by
      apply UInt8.toNat_inj.mp
      rw [UInt8.toNat_ofNat']
      omega
    rw [List.length_append, List.length_singleton, beBytes, beValue_append_single, high, low, ih]

theorem getD_beBytes {width value j : Nat} (inside : j < width) :
    (beBytes width value).getD j 0 = UInt8.ofNat (value / 256 ^ (width - 1 - j)) := by
  induction width generalizing value with
  | zero => exact absurd inside (Nat.not_lt_zero j)
  | succ width ih =>
    simp only [beBytes]
    rcases Nat.lt_or_eq_of_le (Nat.le_of_lt_succ inside) with before | rfl
    · rw [List.getD_eq_getElem?_getD, List.getElem?_append_left (by simpa using before),
        ← List.getD_eq_getElem?_getD, ih before, Nat.div_div_eq_div_mul, ← Nat.pow_succ']
      congr 3
      omega
    · simp [List.getD_eq_getElem?_getD]

theorem beValue_lt (bytes : List UInt8) : beValue bytes < 256 ^ bytes.length := by
  induction bytes using List.reverseRec with
  | nil => decide
  | append_singleton bytes byte ih =>
    have below := byte.toNat_lt
    rw [beValue_append_single, List.length_append, List.length_singleton, Nat.pow_succ]
    have : beValue bytes * 256 + 256 ≤ 256 ^ bytes.length * 256 := by
      rw [← Nat.succ_mul]
      exact Nat.mul_le_mul_right _ ih
    omega

theorem beValue_div_mod {bytes : List UInt8} {j : Nat} (inside : j < bytes.length) :
    beValue bytes / 256 ^ j % 256 = (bytes.getD (bytes.length - 1 - j) 0).toNat := by
  have byte := @getD_beBytes bytes.length (beValue bytes) (bytes.length - 1 - j) (by omega)
  rw [beBytes_beValue, show bytes.length - 1 - (bytes.length - 1 - j) = j by omega] at byte
  rw [byte, UInt8.toNat_ofNat']

theorem beBytes_zero (width : Nat) : beBytes width 0 = List.replicate width 0 := by
  induction width with
  | zero => rfl
  | succ width ih =>
    rw [beBytes, Nat.zero_div, ih, List.replicate_succ']
    rfl

theorem beBytes_add {width value : Nat} (fits : value < 256 ^ width) (extra : Nat) :
    beBytes (extra + width) value = List.replicate extra 0 ++ beBytes width value := by
  induction width generalizing value with
  | zero =>
    have : value = 0 := by simpa using fits
    subst this
    simp [beBytes_zero]
  | succ width ih =>
    have rest : value / 256 < 256 ^ width := by
      rw [Nat.pow_succ] at fits
      omega
    rw [← Nat.add_assoc, beBytes, ih rest, beBytes, List.append_assoc]

theorem beBytes_mul_add {width low : Nat} (fits : low < 256 ^ width) (extra high : Nat) :
    beBytes (extra + width) (high * 256 ^ width + low) = beBytes extra high ++ beBytes width low := by
  induction width generalizing low with
  | zero =>
    have : low = 0 := by simpa using fits
    subst this
    simp [beBytes]
  | succ width ih =>
    have rest : low / 256 < 256 ^ width := by
      rw [Nat.pow_succ] at fits
      omega
    have shifted : (high * 256 ^ (width + 1) + low) / 256 = high * 256 ^ width + low / 256 := by
      rw [Nat.pow_succ, ← Nat.mul_assoc]
      omega
    have lastByte : UInt8.ofNat (high * 256 ^ (width + 1) + low) = UInt8.ofNat low := by
      apply UInt8.toNat_inj.mp
      rw [UInt8.toNat_ofNat', UInt8.toNat_ofNat', Nat.pow_succ, ← Nat.mul_assoc]
      omega
    rw [← Nat.add_assoc, beBytes, shifted, ih rest, lastByte, beBytes, List.append_assoc]

theorem beBytes_pow_sub_one (width : Nat) :
    beBytes width (256 ^ width - 1) = List.replicate width 255 := by
  induction width with
  | zero => rfl
  | succ width ih =>
    have positive : 0 < 256 ^ width := Nat.pow_pos (by decide)
    have shifted : (256 ^ (width + 1) - 1) / 256 = 256 ^ width - 1 := by
      rw [Nat.pow_succ]
      omega
    have lastByte : UInt8.ofNat (256 ^ (width + 1) - 1) = 255 := by
      apply UInt8.toNat_inj.mp
      rw [UInt8.toNat_ofNat', Nat.pow_succ]
      simp only [UInt8.reduceToNat]
      omega
    rw [beBytes, shifted, ih, lastByte, List.replicate_succ']

abbrev Decoder := StateT (List UInt8) Option

namespace Decoder

def bytes (count : Nat) : Decoder (List UInt8) := fun buffer =>
  if count ≤ buffer.length then some (buffer.take count, buffer.drop count) else none

def nat (width : Nat) : Decoder Nat := fun buffer =>
  (bytes width buffer).map fun read => (beValue read.1, read.2)

def vector (count : Nat) : Decoder (List.Vector UInt8 count) := fun buffer =>
  if fits : count ≤ buffer.length then
    some (⟨buffer.take count, by simp [fits]⟩, buffer.drop count)
  else none

theorem bytes_append {count : Nat} {front : List UInt8} (rest : List UInt8)
    (exact : front.length = count) : bytes count (front ++ rest) = some (front, rest) := by
  subst exact
  simp [bytes]

theorem vector_append {count : Nat} (field : List.Vector UInt8 count) (rest : List UInt8) :
    vector count (field.toList ++ rest) = some (field, rest) := by
  have exact := field.toList_length
  simp only [vector, List.length_append, exact, Nat.le_add_right, dif_pos]
  congr
  · show (field.toList ++ rest).take count = field.toList
    rw [List.take_append_of_le_length (by omega), List.take_of_length_le (by omega)]
  · simp [exact]

theorem nat_append (width value : Nat) (rest : List UInt8) :
    nat width (beBytes width value ++ rest) = some (value % 256 ^ width, rest) := by
  rw [nat, bytes_append rest (length_beBytes width value), Option.map_some, beValue_beBytes]

theorem bind_of_some {α β : Type} {first : Decoder α} {next : α → Decoder β} {buffer rest : List UInt8}
    {value : α} (reads : first buffer = some (value, rest)) : (first >>= next) buffer = next value rest := by
  show (first buffer).bind (fun read => next read.1 read.2) = next value rest
  rw [reads]
  rfl

@[simp] theorem vector_bind {β : Type} {count : Nat} (field : List.Vector UInt8 count)
    (rest : List UInt8) (next : List.Vector UInt8 count → Decoder β) :
    (vector count >>= next) (field.toList ++ rest) = next field rest :=
  bind_of_some (vector_append field rest)

theorem bytes_bind {β : Type} {count : Nat} {front : List UInt8} (rest : List UInt8)
    (exact : front.length = count) (next : List UInt8 → Decoder β) :
    (bytes count >>= next) (front ++ rest) = next front rest :=
  bind_of_some (bytes_append rest exact)

def ofOption {α : Type} (value : Option α) : Decoder α := fun buffer => value.map (·, buffer)

@[simp] theorem ofOption_some_bind {α β : Type} (value : α) (next : α → Decoder β)
    (buffer : List UInt8) : (ofOption (some value) >>= next) buffer = next value buffer := rfl

@[simp] theorem pure_apply {α : Type} (value : α) (buffer : List UInt8) :
    (pure value : Decoder α) buffer = some (value, buffer) := rfl

end Decoder

theorem flatMap_injective {α β : Type} {encode : α → List β} {width : Nat} (positive : 0 < width)
    (sized : ∀ a, (encode a).length = width) (injective : Function.Injective encode) :
    Function.Injective fun values : List α => values.flatMap encode := by
  intro values
  induction values with
  | nil =>
    intro others same
    cases others with
    | nil => rfl
    | cons other others =>
      have lengths := congrArg List.length same
      simp only [List.flatMap_nil, List.flatMap_cons, List.length_nil, List.length_append,
        sized] at lengths
      omega
  | cons value values ih =>
    intro others same
    cases others with
    | nil =>
      have lengths := congrArg List.length same
      simp only [List.flatMap_nil, List.flatMap_cons, List.length_nil, List.length_append,
        sized] at lengths
      omega
    | cons other others =>
      simp only [List.flatMap_cons] at same
      obtain ⟨first, rest⟩ := List.append_inj same (by rw [sized, sized])
      rw [injective first, ih rest]

end AionFastVM.Library
