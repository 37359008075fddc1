import AionFastVM.Jit.GasBound

/-!
# Code identifiers

`makeCodeId`: the code hash in hexadecimal, the revision's letter, and `S` for a static call.
-/

namespace AionFastVM.Jit
open AionFastVM.Library AionFastVM.Jni GasOp

def toChar : Revision → Char
  | .frontier => 'F'
  | .homestead => 'H'
  | .tangerineWhistle => 'T'
  | .spuriousDragon => 'S'
  | .byzantium => 'B'
  | .aion => 'A'
  | .constantinople => 'C'
  | .aionV1 => 'D'

def hexChars : List Char := "0123456789abcdef".toList

def hexByte (b : UInt8) : List Char :=
  [hexChars.getD (b >>> 4).toNat '0', hexChars.getD (b &&& 0xf).toNat '0']

abbrev EvmHash := List.Vector UInt8 32

def makeCodeId (codeHash : EvmHash) (rev : Revision) (flags : UInt32) : List Char :=
  codeHash.toList.flatMap hexByte ++ [toChar rev] ++ if isStatic flags then ['S'] else []

theorem toChar_injective : Function.Injective toChar := by
  intro a b same
  cases a <;> cases b <;> first | rfl | cases same

theorem toNat_shiftRight_four (b : UInt8) : (b >>> 4).toNat = b.toNat / 16 := by
  simp [UInt8.toNat_shiftRight, Nat.shiftRight_eq_div_pow]

theorem toNat_and_fifteen (b : UInt8) : (b &&& 0xf).toNat = b.toNat % 16 := by
  rw [UInt8.toNat_and]
  exact Nat.and_two_pow_sub_one_eq_mod b.toNat 4

theorem hexByte_injective : Function.Injective hexByte := by
  intro a b same
  simp only [hexByte, List.cons.injEq, and_true] at same
  have digit : ∀ n < 16, hexChars.idxOf (hexChars.getD n '0') = n := by decide
  have high := congrArg hexChars.idxOf same.1
  have low := congrArg hexChars.idxOf same.2
  have nibbles := a.toNat_lt
  have nibbles' := b.toNat_lt
  rw [digit _ (by rw [toNat_shiftRight_four]; omega), digit _ (by rw [toNat_shiftRight_four]; omega),
    toNat_shiftRight_four, toNat_shiftRight_four] at high
  rw [digit _ (by rw [toNat_and_fifteen]; omega), digit _ (by rw [toNat_and_fifteen]; omega),
    toNat_and_fifteen, toNat_and_fifteen] at low
  apply UInt8.toNat_inj.mp
  omega

@[simp] theorem length_hexByte (b : UInt8) : (hexByte b).length = 2 := rfl

theorem length_flatMap_hexByte (bytes : List UInt8) :
    (bytes.flatMap hexByte).length = 2 * bytes.length := by
  induction bytes with
  | nil => rfl
  | cons b bytes ih =>
    rw [List.flatMap_cons, List.length_append, ih, length_hexByte, List.length_cons]
    omega

theorem makeCodeId_injective {codeHash codeHash' : EvmHash} {rev rev' : Revision}
    {flags flags' : UInt32} (same : makeCodeId codeHash rev flags = makeCodeId codeHash' rev' flags') :
    codeHash = codeHash' ∧ rev = rev' ∧ isStatic flags = isStatic flags' := by
  have hexLength : ∀ h : EvmHash, (h.toList.flatMap hexByte).length = 64 := by
    intro h
    rw [length_flatMap_hexByte, h.toList_length]
  have lengths := congrArg List.length same
  have flagsSame : isStatic flags = isStatic flags' := by
    unfold makeCodeId at lengths
    cases static : isStatic flags <;> cases static' : isStatic flags' <;>
      simp [static, static', hexLength] at lengths ⊢
  unfold makeCodeId at same
  rw [flagsSame] at same
  obtain ⟨hex, letter⟩ := List.append_inj (List.append_cancel_right same)
    (by rw [hexLength, hexLength])
  refine ⟨?_, toChar_injective (List.singleton_inj.mp letter), flagsSame⟩
  exact List.Vector.eq _ _
    (flatMap_injective (by decide : 0 < 2) length_hexByte hexByte_injective hex)

end AionFastVM.Jit
