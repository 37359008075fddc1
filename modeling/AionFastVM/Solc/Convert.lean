import AionFastVM.Solc.Assembly
import AionFastVM.Solc.StorageLayout
import Mathlib.Data.Fin.Basic

/-!
# Integer conversions
-/

namespace AionFastVM.Library

variable {m n : Nat} (x : BitVec m)

theorem setWidth_setWidth_of_le_left (wider : m ≤ n) (k : Nat) :
    (x.setWidth n).setWidth k = x.setWidth k := by
  apply BitVec.eq_of_getLsbD_eq
  intro i inside
  simp only [BitVec.getLsbD_setWidth, inside, decide_true, Bool.true_and]
  by_cases below : i < n
  · simp [below]
  · simp [below, BitVec.getLsbD_of_ge x i (by omega)]

theorem signExtend_signExtend_of_le (wider : m ≤ n) {k : Nat} (widest : n ≤ k) :
    (x.signExtend n).signExtend k = x.signExtend k := by
  apply BitVec.eq_of_getLsbD_eq
  intro i inside
  simp only [BitVec.getLsbD_signExtend, inside, decide_true, Bool.true_and,
    BitVec.msb_eq_getLsbD_last]
  by_cases low : i < m
  · simp [low, show i < n by omega]
  · by_cases mid : i < n
    · simp [low, mid]
    · -- above both widths each side copies the sign bit of `x`
      simp only [low, mid, if_false]
      rcases Nat.eq_zero_or_pos n with zero | positive
      · subst zero
        obtain rfl : m = 0 := by omega
        simp
      · by_cases same : n - 1 < m
        · obtain rfl : n = m := by omega
          simp [same]
        · simp [same, show n - 1 < n by omega]

theorem signExtend_setWidth_of_lt (wider : m < n) (k : Nat) :
    (x.setWidth n).signExtend k = x.setWidth k := by
  have clear : (x.setWidth n).msb = false := by
    rw [BitVec.msb_eq_getLsbD_last, BitVec.getLsbD_setWidth, BitVec.getLsbD_of_ge x _ (by omega)]
    simp
  rw [BitVec.signExtend_eq_setWidth_of_msb_false clear, setWidth_setWidth_of_le_left x wider.le]

@[simp] theorem signExtend_zero (k : Nat) : (0#m).signExtend k = 0#k := by
  apply BitVec.eq_of_getLsbD_eq
  intro i _
  simp [BitVec.getLsbD_signExtend]

end AionFastVM.Library

namespace AionFastVM.Solc
open AionFastVM.Jit (stackSizeLimit signextendInstr_eq_signExtend)
open AionFastVM.Library (setWidth_setWidth_of_le_left signExtend_signExtend_of_le
  signExtend_setWidth_of_lt signExtend_zero)

structure IntegerType where
  numBits : Nat
  modifier : IntegerModifier
  positive : 0 < numBits
  atMost256 : numBits ≤ 256
  wholeBytes : numBits % 8 = 0
  addressWide : modifier = .address → numBits = 256
  deriving DecidableEq

namespace IntegerType

def sizeOnStack (type : IntegerType) : Nat := if type.numBits > 128 then 2 else 1

def isSigned (type : IntegerType) : Bool := type.modifier == .signed

def topBits (type : IntegerType) : Nat :=
  if type.numBits > 128 then type.numBits - 128 else type.numBits

theorem topBits_le (type : IntegerType) : type.topBits ≤ 128 := by
  have atMost := type.atMost256
  unfold topBits
  split <;> omega

theorem topBits_of_le {type : IntegerType} (narrow : type.numBits ≤ 128) :
    type.topBits = type.numBits := by
  simp [topBits, Nat.not_lt.mpr narrow]

theorem topBits_of_lt {type : IntegerType} (wide : 128 < type.numBits) :
    type.topBits = type.numBits - 128 := by
  simp [topBits, wide]

theorem sizeOnStack_of_le {type : IntegerType} (narrow : type.numBits ≤ 128) :
    type.sizeOnStack = 1 := by
  simp [sizeOnStack, Nat.not_lt.mpr narrow]

theorem sizeOnStack_of_lt {type : IntegerType} (wide : 128 < type.numBits) :
    type.sizeOnStack = 2 := by
  simp [sizeOnStack, wide]

theorem eight_mul_bytes (type : IntegerType) : 8 * (type.numBits / 8) = type.numBits := by
  have whole := type.wholeBytes
  omega

theorem topBits_of_words {type : IntegerType}
    (words : type.numBits / 8 = 16 ∨ type.numBits / 8 = 32) : type.topBits = 128 := by
  have whole := type.wholeBytes
  rcases words with one | full
  · rw [topBits_of_le (by omega)]
    omega
  · rw [topBits_of_lt (by omega)]
    omega

def words (type : IntegerType) (pattern : BitVec type.numBits) : List (BitVec 128) :=
  if type.sizeOnStack = 1 then
    [if type.isSigned then pattern.signExtend 128 else pattern.setWidth 128]
  else twoWords (if type.isSigned then pattern.signExtend 256 else pattern.setWidth 256)

end IntegerType

def convertPattern (S T : IntegerType) (pattern : BitVec S.numBits) : BitVec T.numBits :=
  if S.isSigned then pattern.signExtend T.numBits else pattern.setWidth T.numBits

def cleanHigherOrderBits (type : IntegerType) : List AssemblyItem :=
  let numBits := type.topBits
  if numBits = 128 then []
  else if type.isSigned then [.push (BitVec.ofNat 128 (numBits / 8 - 1)), .op .signextend]
  else [.push (BitVec.ofNat 128 (2 ^ numBits - 1)), .op .and]

def convertIntegerType (typeOnStack targetType : IntegerType) (cleanupNeeded chopSignBits : Bool) :
    List AssemblyItem :=
  if typeOnStack = targetType ∧ cleanupNeeded = false then []
  else
    let chopSignBitsPending := chopSignBits && targetType.isSigned
    let widen := if targetType.sizeOnStack > typeOnStack.sizeOnStack then [.push 0#128] else []
    -- widening: clean up according to the source type's width; otherwise, when forced,
    -- according to the target type's bits
    let clean :=
      if targetType.numBits > typeOnStack.numBits then cleanHigherOrderBits typeOnStack
      else if cleanupNeeded then cleanHigherOrderBits targetType
      else []
    let chop :=
      if chopSignBitsPending then
        if typeOnStack.numBits < 128 then
          [.push (BitVec.ofNat 128 (2 ^ typeOnStack.numBits - 1)), .op .and]
        else if typeOnStack.numBits > 128 ∧ typeOnStack.numBits < 256 then
          [.push (BitVec.ofNat 128 (2 ^ (typeOnStack.numBits - 128) - 1)), .op .and]
        else []
      else []
    widen ++ clean ++ chop

def cleanWord (type : IntegerType) (word : BitVec 128) : BitVec 128 :=
  if type.isSigned then (word.setWidth type.topBits).signExtend 128
  else (word.setWidth type.topBits).setWidth 128

theorem and_mask_eq_setWidth (k : Nat) (word : BitVec 128) :
    BitVec.ofNat 128 (2 ^ k - 1) &&& word = (word.setWidth k).setWidth 128 := by
  apply BitVec.eq_of_getLsbD_eq
  intro i inside
  simp only [BitVec.getLsbD_and, BitVec.getLsbD_ofNat, Nat.testBit_two_pow_sub_one,
    BitVec.getLsbD_setWidth, inside, decide_true, Bool.true_and]

theorem cleanWord_of_topBits {type : IntegerType} (full : type.topBits = 128) (word : BitVec 128) :
    cleanWord type word = word := by
  unfold cleanWord
  rw [full]
  split <;> simp

theorem run_cleanHigherOrderBits (type : IntegerType) (word : BitVec 128) (rest : List (BitVec 128))
    (room : rest.length + 2 ≤ stackSizeLimit) :
    run (cleanHigherOrderBits type) (word :: rest) = some (cleanWord type word :: rest) := by
  have whole := type.wholeBytes
  have positive := type.positive
  have atMost := type.atMost256
  have topWhole : type.topBits % 8 = 0 ∧ 0 < type.topBits ∧ type.topBits ≤ 128 := by
    unfold IntegerType.topBits
    split <;> omega
  unfold stackSizeLimit at room
  by_cases full : type.topBits = 128
  · simp [cleanHigherOrderBits, full, cleanWord_of_topBits full]
  · -- the index of the sign byte, or the mask of the bits below the width
    have bytes : 8 * (type.topBits / 8) = type.topBits := by omega
    by_cases signed : type.isSigned
    · have extended := signextendInstr_eq_signExtend (k := type.topBits / 8) (by omega) (by omega)
        word
      rw [bytes] at extended
      simp (disch := (simp only [List.length_cons, stackSizeLimit]; omega)) [cleanHigherOrderBits,
        full, signed, cleanWord, execItem_push, extended]
    · simp (disch := (simp only [List.length_cons, stackSizeLimit]; omega)) [cleanHigherOrderBits,
        full, signed, cleanWord, execItem_push, and_mask_eq_setWidth]

@[simp] theorem cleanWord_zero (type : IntegerType) : cleanWord type 0#128 = 0#128 := by
  unfold cleanWord
  split <;> simp [signExtend_zero]

section
variable {S T : IntegerType}

theorem numBits_le_of_sizeOnStack {type : IntegerType} (one : type.sizeOnStack = 1) :
    type.numBits ≤ 128 := by
  unfold IntegerType.sizeOnStack at one
  split at one <;> omega

theorem lt_numBits_of_sizeOnStack {type : IntegerType} (two : type.sizeOnStack = 2) :
    128 < type.numBits := by
  unfold IntegerType.sizeOnStack at two
  split at two <;> omega

theorem topBits_of_sizeOnStack {type : IntegerType} (one : type.sizeOnStack = 1) :
    type.topBits = type.numBits :=
  IntegerType.topBits_of_le (numBits_le_of_sizeOnStack one)

theorem cleanWord_of_sizeOnStack {type : IntegerType} (one : type.sizeOnStack = 1)
    (word : BitVec 128) :
    cleanWord type word = if type.isSigned then (word.setWidth type.numBits).signExtend 128
      else (word.setWidth type.numBits).setWidth 128 := by
  unfold cleanWord
  rw [topBits_of_sizeOnStack one]

theorem convertIntegerType_oneWord (oneS : S.sizeOnStack = 1) (oneT : T.sizeOnStack = 1)
    (signs : S.isSigned = true → S.numBits < T.numBits → T.isSigned = true)
    (pattern : BitVec S.numBits) (word : BitVec 128) (held : word.setWidth S.numBits = pattern)
    (rest : List (BitVec 128)) (room : rest.length + 2 ≤ stackSizeLimit) :
    run (convertIntegerType S T true false) (word :: rest) =
      some (T.words (convertPattern S T pattern) ++ rest) := by
  have code : convertIntegerType S T true false =
      if S.numBits < T.numBits then cleanHigherOrderBits S else cleanHigherOrderBits T := by
    simp [convertIntegerType, oneS, oneT]
  have wordsT : T.words (convertPattern S T pattern) =
      [if T.isSigned then (convertPattern S T pattern).signExtend 128
        else (convertPattern S T pattern).setWidth 128] := by
    simp [IntegerType.words, oneT]
  rw [code, wordsT, List.singleton_append]
  split
  case isTrue wider =>
    rw [run_cleanHigherOrderBits S word rest room, cleanWord_of_sizeOnStack oneS, held]
    simp only [convertPattern]
    cases signedS : S.isSigned <;> cases signedT : T.isSigned
    case false.false => simp [setWidth_setWidth_of_le_left pattern wider.le]
    case false.true => simp [signExtend_setWidth_of_lt pattern wider]
    case true.false => exact absurd (signs signedS wider) (by simp [signedT])
    case true.true =>
      simp [signExtend_signExtend_of_le pattern wider.le (numBits_le_of_sizeOnStack oneT)]
  case isFalse notWider =>
    rw [run_cleanHigherOrderBits T word rest room]
    have narrowed : word.setWidth T.numBits = pattern.setWidth T.numBits := by
      rw [← held, BitVec.setWidth_setWidth_of_le _ (by omega)]
    have reduced : convertPattern S T pattern = pattern.setWidth T.numBits := by
      unfold convertPattern
      split
      · exact BitVec.signExtend_eq_setWidth_of_le _ (by omega)
      · rfl
    rw [cleanWord_of_sizeOnStack oneT, narrowed, reduced]

theorem convertIntegerType_widening (oneS : S.sizeOnStack = 1) (twoT : T.sizeOnStack = 2)
    (word : BitVec 128) (rest : List (BitVec 128)) (room : rest.length + 3 ≤ stackSizeLimit) :
    run (convertIntegerType S T true false) (word :: rest) = some (0#128 :: word :: rest) := by
  have wider : S.numBits < T.numBits :=
    Nat.lt_of_le_of_lt (numBits_le_of_sizeOnStack oneS) (lt_numBits_of_sizeOnStack twoT)
  have code : convertIntegerType S T true false = .push 0#128 :: cleanHigherOrderBits S := by
    simp [convertIntegerType, oneS, twoT, wider]
  have pushed : (word :: rest).length < stackSizeLimit := by
    simp only [List.length_cons]
    omega
  rw [code, run_cons, execItem_push _ pushed, Option.bind_some,
    run_cleanHigherOrderBits S 0#128 (word :: rest) (by simp only [List.length_cons]; omega),
    cleanWord_zero]

theorem convertIntegerType_narrowing (twoS : S.sizeOnStack = 2) (oneT : T.sizeOnStack = 1)
    (high low : BitVec 128) (rest : List (BitVec 128)) (room : rest.length + 3 ≤ stackSizeLimit) :
    run (convertIntegerType S T true false) (high :: low :: rest) =
      some (cleanWord T high :: low :: rest) := by
  have narrower : T.numBits < S.numBits :=
    Nat.lt_of_le_of_lt (numBits_le_of_sizeOnStack oneT) (lt_numBits_of_sizeOnStack twoS)
  have code : convertIntegerType S T true false = cleanHigherOrderBits T := by
    simp [convertIntegerType, oneT, twoS, Nat.not_lt.mpr narrower.le]
  rw [code, run_cleanHigherOrderBits T high (low :: rest) (by simp only [List.length_cons]; omega)]

end

namespace IntegerType

def int8 : IntegerType := ⟨8, .signed, by decide, by decide, by decide, by decide⟩
def int256 : IntegerType := ⟨256, .signed, by decide, by decide, by decide, by decide⟩
def uint16 : IntegerType := ⟨16, .unsigned, by decide, by decide, by decide, by decide⟩

end IntegerType

/-- Two conversions that keep the wrong words: to and from two words, and signed to unsigned. -/
theorem convertType_twoWord_paths_diverge :
    (∀ S T : IntegerType, S.sizeOnStack = 1 → T.sizeOnStack = 2 →
      ∀ (word : BitVec 128) (rest : List (BitVec 128)), rest.length + 3 ≤ stackSizeLimit →
        run (convertIntegerType S T true false) (word :: rest) = some (0#128 :: word :: rest)) ∧
      (∀ S T : IntegerType, S.sizeOnStack = 2 → T.sizeOnStack = 1 →
        ∀ (high low : BitVec 128) (rest : List (BitVec 128)), rest.length + 3 ≤ stackSizeLimit →
          run (convertIntegerType S T true false) (high :: low :: rest) =
            some (cleanWord T high :: low :: rest)) ∧
      IntegerType.int8.words (BitVec.allOnes 8) = [BitVec.allOnes 128] ∧
      run (convertIntegerType .int8 .int256 true false) [BitVec.allOnes 128] =
        some [0#128, BitVec.allOnes 128] ∧
      IntegerType.int256.words (convertPattern .int8 .int256 (BitVec.allOnes 8)) =
        [BitVec.allOnes 128, BitVec.allOnes 128] ∧
      run (convertIntegerType .int8 .uint16 true false) [BitVec.allOnes 128] =
        some [BitVec.allOnes 128] ∧
      IntegerType.uint16.words (convertPattern .int8 .uint16 (BitVec.allOnes 8)) =
        [BitVec.ofNat 128 (2 ^ 16 - 1)] := by
  refine ⟨fun S T oneS twoT word rest room => convertIntegerType_widening oneS twoT word rest room,
    fun S T twoS oneT high low rest room => convertIntegerType_narrowing twoS oneT high low rest room,
    by decide, by decide, by decide, by decide, by decide⟩

theorem convertType_twoWord_paths_at_int8_int256 :
    run (convertIntegerType .int8 .int256 true false) [5#128] = some [0#128, 5#128] ∧
      run (convertIntegerType .int256 .int8 true false) [1#128, 2#128] =
        some [cleanWord .int8 1#128, 2#128] :=
  ⟨convertType_twoWord_paths_diverge.1 .int8 .int256 rfl rfl 5#128 [] (by decide),
    convertType_twoWord_paths_diverge.2.1 .int256 .int8 rfl rfl 1#128 2#128 [] (by decide)⟩

end AionFastVM.Solc
