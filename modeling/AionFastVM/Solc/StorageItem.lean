import Mathlib
import AionFastVM.Solc.Compare
import AionFastVM.Solc.Convert
import AionFastVM.Library.BitField

/-!
# Storage lvalues

Integer value types in 16-byte slots, from a storage key and a byte offset on the stack, the
offset on top.
-/

namespace AionFastVM.Solc
open AionFastVM.Jit (Instruction stackSizeLimit signextendInstr_eq_signExtend)
open AionFastVM.Library (insertField extractField twoPow_pow twoPow_ne_zero
  extractField_insertField)

structure Machine where
  stack : List (BitVec 128)
  storage : BitVec 128 → BitVec 128

def AssemblyItem.touchesStorage : AssemblyItem → Bool
  | .op .sload | .op .sstore => true
  | _ => false

theorem AssemblyItem.touchesStorage_push (value : BitVec 128) :
    (AssemblyItem.push value).touchesStorage = false := rfl

namespace Machine

def step (m : Machine) : AssemblyItem → Option Machine
  | .op .sload =>
    match m.stack with
    | key :: rest => some ⟨m.storage key :: rest, m.storage⟩
    | [] => none
  | .op .sstore =>
    match m.stack with
    | key :: value :: rest => some ⟨rest, Function.update m.storage key value⟩
    | _ => none
  | item => (execItem m.stack item).map fun stack => ⟨stack, m.storage⟩

def run : List AssemblyItem → Machine → Option Machine
  | [], m => some m
  | item :: items, m => (m.step item).bind (run items)

@[simp] theorem run_nil (m : Machine) : run [] m = some m := rfl

@[simp] theorem run_cons (item : AssemblyItem) (items : List AssemblyItem) (m : Machine) :
    run (item :: items) m = (m.step item).bind (run items) := rfl

theorem run_append (first second : List AssemblyItem) (m : Machine) :
    run (first ++ second) m = (run first m).bind (run second) := by
  induction first generalizing m with
  | nil => rfl
  | cons item items ih =>
    simp only [List.cons_append, run_cons, Option.bind_assoc]
    congr 1
    funext next
    exact ih next

@[simp] theorem step_sload (key : BitVec 128) (rest : List (BitVec 128))
    (storage : BitVec 128 → BitVec 128) :
    step ⟨key :: rest, storage⟩ (.op .sload) = some ⟨storage key :: rest, storage⟩ := rfl

@[simp] theorem step_sstore (key value : BitVec 128) (rest : List (BitVec 128))
    (storage : BitVec 128 → BitVec 128) :
    step ⟨key :: value :: rest, storage⟩ (.op .sstore) =
      some ⟨rest, Function.update storage key value⟩ := rfl

-- Stated for a machine built from its fields, so that a symbolic run rewrites a step only once
-- the machine before it is known.
theorem step_of_stackOnly {item : AssemblyItem} (stackOnly : item.touchesStorage = false)
    (stack : List (BitVec 128)) (storage : BitVec 128 → BitVec 128) :
    step ⟨stack, storage⟩ item = (execItem stack item).map fun stack => ⟨stack, storage⟩ := by
  unfold step
  split <;> simp_all [AssemblyItem.touchesStorage]

theorem run_stackOnly {code : List AssemblyItem}
    (stackOnly : ∀ item ∈ code, item.touchesStorage = false) (stack : List (BitVec 128))
    (storage : BitVec 128 → BitVec 128) :
    run code ⟨stack, storage⟩ = (Solc.run code stack).map fun stack => ⟨stack, storage⟩ := by
  induction code generalizing stack with
  | nil => rfl
  | cons item items ih =>
    rw [run_cons, step_of_stackOnly (stackOnly item List.mem_cons_self), Solc.run_cons]
    cases execItem stack item with
    | none => rfl
    | some next =>
      simp only [Option.map_some, Option.bind_some]
      exact ih (fun other mem => stackOnly other (List.mem_cons_of_mem item mem)) next

end Machine

/-! ## The code of `StorageItem` -/

def dupInstruction (number : Nat) : Option Instruction := numberedInstruction .dup number

def copyToStackTop (stackDepth itemSize : Nat) : Option (List AssemblyItem) :=
  if stackDepth ≤ 32 then (dupInstruction stackDepth).map fun dup => List.replicate itemSize (.op dup)
  else none

def popStackSlots (amount : Nat) : List AssemblyItem := List.replicate amount (.op .pop)

def byteMask (numBytes : Nat) : BitVec 128 := BitVec.ofNat 128 (2 ^ (8 * numBytes) - 1)

def storeValue (dataType sourceType : IntegerType) (move : Bool) : Option (List AssemblyItem) := do
  let numBytes := dataType.numBits / 8
  if numBytes = 16 then
    -- offset should be zero
    pure <| List.flatten [[.op .pop], if move then [] else [.op (.dup 1), .op (.swap 0)],
      [.op (.swap 0)], convertIntegerType sourceType dataType true false,
      [.op (.swap 0), .op .sstore]]
  else if numBytes = 32 then
    let down ← rotateStackDown 3
    let converted ←
      if move then (rotateStackUp 3).map fun up =>
        List.flatten [up, convertIntegerType sourceType dataType true false, down]
      else pure <| List.flatten [[.op (.dup 2), .op (.dup 2)],
        convertIntegerType sourceType dataType true false, down]
    -- save the least-significant word, then the most-significant word
    pure <| List.flatten [[.op .pop], converted, [.op (.dup 0), .push 1#128, .op .add,
      .op (.dup 3), .op (.swap 0), .op .sstore, .op .sstore, .op .pop]]
  else if numBytes < 16 then
    -- OR the value into the other values in the storage slot
    let copy ← copyToStackTop (3 + dataType.sizeOnStack) dataType.sizeOnStack
    pure <| List.flatten [[.push 0x100#128, .op .exp, .op (.dup 1), .op .sload, .op (.dup 1),
      .push (byteMask numBytes), .op .mul, .op .not, .op .and, .op (.swap 0)], copy,
      -- remove the higher order bits
      convertIntegerType sourceType dataType true true,
      [.op .mul, .op .or, .op (.swap 0), .op .sstore],
      if move then popStackSlots dataType.sizeOnStack else []]
  else
    -- byte-offset should always be zero
    let copy ← if move then rotateStackUp 3 else pure [.op (.dup 2), .op (.dup 2)]
    pure <| List.flatten [[.op .pop], copy, convertIntegerType sourceType dataType true true,
      [.op (.dup 2), .op .sstore, .op (.swap 0), .push 1#128, .op .add, .op .sstore]]

def retrieveValue (dataType : IntegerType) (remove : Bool) : Option (List AssemblyItem) := do
  let copy ← if remove then pure [] else copyToStackTop 2 2
  let storageBytes := dataType.numBits / 8
  let load : List AssemblyItem :=
    if storageBytes = 16 then [.op .pop, .op .sload]
    else if storageBytes = 32 then
      [.op .pop, .op (.dup 0), .push 1#128, .op .add, .op .sload, .op (.swap 0), .op .sload]
    else if storageBytes < 16 then
      List.flatten [[.op (.swap 0), .op .sload, .op (.swap 0), .push 0x100#128, .op .exp,
        .op (.swap 0), .op .div],
        if dataType.isSigned then [.push (BitVec.ofNat 128 (storageBytes - 1)), .op .signextend]
        else [.push (byteMask storageBytes), .op .and]]
    else [.op .pop, .op (.dup 0), .push 1#128, .op .add, .op .sload, .op (.swap 0), .op .sload]
  pure (copy ++ load)

def setToZero (dataType : IntegerType) (removeReference : Bool) : Option (List AssemblyItem) := do
  let copy ← if removeReference then pure [] else copyToStackTop 2 2
  let storageBytes := dataType.numBits / 8
  let clear : List AssemblyItem :=
    if storageBytes > 16 then
      -- offset should be zero
      [.op .pop, .op (.dup 0), .push 0#128, .op (.swap 0), .op .sstore, .push 1#128, .op .add,
        .push 0#128, .op (.swap 0), .op .sstore]
    else if storageBytes = 16 then [.op .pop, .push 0#128, .op (.swap 0), .op .sstore]
    else
      [.push 0x100#128, .op .exp, .op (.dup 1), .op .sload, .op (.swap 0),
        .push (byteMask storageBytes), .op .mul, .op .not, .op .and, .op (.swap 0), .op .sstore]
  pure (copy ++ clear)

def storedWord (type : IntegerType) (chopSignBits : Bool) (word : BitVec 128) : BitVec 128 :=
  if chopSignBits && type.isSigned then (word.setWidth type.topBits).setWidth 128
  else cleanWord type word

theorem setWidth_cleanWord (type : IntegerType) (word : BitVec 128) :
    (cleanWord type word).setWidth type.topBits = word.setWidth type.topBits := by
  have narrow := type.topBits_le
  apply BitVec.eq_of_getLsbD_eq
  intro i inside
  unfold cleanWord
  split <;> simp [BitVec.getLsbD_signExtend, BitVec.getLsbD_setWidth, inside] <;> omega

theorem run_convertIntegerType_self (type : IntegerType) (chopSignBits : Bool) (word : BitVec 128)
    (rest : List (BitVec 128)) (room : rest.length + 2 ≤ stackSizeLimit) :
    run (convertIntegerType type type true chopSignBits) (word :: rest) =
      some (storedWord type chopSignBits word :: rest) := by
  simp only [convertIntegerType, Bool.true_eq_false, and_false, if_false, if_true, Nat.lt_irrefl,
    List.nil_append]
  rw [run_append, run_cleanHigherOrderBits _ _ _ room, Option.bind_some]
  have atMost := type.atMost256
  unfold stackSizeLimit at room
  cases chop : (chopSignBits && type.isSigned)
  case false => simp [storedWord, chop]
  case true =>
    by_cases small : type.numBits < 128
    · have top : type.numBits = type.topBits := (IntegerType.topBits_of_le (by omega)).symm
      simp only [small, if_true]
      rw [top]
      simp (disch := (simp only [List.length_cons, stackSizeLimit]; omega))
        [execItem_push, and_mask_eq_setWidth, setWidth_cleanWord, storedWord, chop]
    · by_cases twoWords : type.numBits > 128 ∧ type.numBits < 256
      · have top := (IntegerType.topBits_of_lt twoWords.1).symm
        simp only [small, twoWords, if_true, if_false]
        rw [top]
        simp (disch := (simp only [List.length_cons, stackSizeLimit]; omega))
          [execItem_push, and_mask_eq_setWidth, setWidth_cleanWord, storedWord, chop]
      · -- 128 or 256 bits: no chop, and nothing above the top word's width
        have full : type.topBits = 128 := IntegerType.topBits_of_words (by omega)
        simp [small, twoWords, storedWord, chop, full, cleanWord_of_topBits full]

theorem cleanHigherOrderBits_stackOnly (type : IntegerType) :
    ∀ item ∈ cleanHigherOrderBits type, item.touchesStorage = false := by
  intro item mem
  simp only [cleanHigherOrderBits] at mem
  split_ifs at mem <;> simp at mem <;> rcases mem with rfl | rfl <;> rfl

theorem convertIntegerType_stackOnly (typeOnStack targetType : IntegerType)
    (cleanupNeeded chopSignBits : Bool) :
    ∀ item ∈ convertIntegerType typeOnStack targetType cleanupNeeded chopSignBits,
      item.touchesStorage = false := by
  intro item mem
  unfold convertIntegerType at mem
  split at mem
  case isTrue => simp at mem
  case isFalse =>
    simp only [List.mem_append] at mem
    rcases mem with (widen | clean) | chop
    · split at widen <;> simp at widen
      subst widen
      rfl
    · split_ifs at clean <;>
        first | exact cleanHigherOrderBits_stackOnly _ item clean | simp at clean
    · split_ifs at chop <;> simp at chop <;> rcases chop with rfl | rfl <;> rfl

/-! ## Values of two words -/

section
variable {type : IntegerType} (key offset high low : BitVec 128)
  (storage : BitVec 128 → BitVec 128)
  (rest : List (BitVec 128))

theorem run_storeValue_twoWords (wide : 16 < type.numBits / 8) (notFull : type.numBits / 8 ≠ 32)
    (room : rest.length + 4 ≤ stackSizeLimit) :
    (storeValue type type true).bind (Machine.run · ⟨offset :: key :: high :: low :: rest, storage⟩) =
      some ⟨rest, Function.update (Function.update storage key (storedWord type true high))
        (1#128 + key) low⟩ := by
  have notOne : ¬ type.numBits / 8 = 16 := by omega
  have notPacked : ¬ type.numBits / 8 < 16 := by omega
  simp only [storeValue, notOne, notFull, notPacked, if_false, if_true, rotateStackUp_three]
  simp only [Option.bind_eq_bind, Option.pure_def, Option.bind_some, List.flatten_cons,
    List.flatten_nil, List.append_nil, Machine.run_append]
  unfold stackSizeLimit at room
  simp (disch := (first | decide | (simp only [List.length_cons, stackSizeLimit]; omega)))
    [Machine.step_of_stackOnly, execItem_dup, execItem_push,
    Machine.run_stackOnly (convertIntegerType_stackOnly type type true true),
    run_convertIntegerType_self]

theorem run_retrieveValue_twoWords (wide : 16 < type.numBits / 8)
    (room : rest.length + 3 ≤ stackSizeLimit) :
    (retrieveValue type true).bind (Machine.run · ⟨offset :: key :: rest, storage⟩) =
      some ⟨storage key :: storage (1#128 + key) :: rest, storage⟩ := by
  have notOne : ¬ type.numBits / 8 = 16 := by omega
  have notPacked : ¬ type.numBits / 8 < 16 := by omega
  unfold stackSizeLimit at room
  -- the code is the same for 32 bytes as for 17 to 31
  by_cases full : type.numBits / 8 = 32 <;>
  simp (disch := (first | decide | (simp only [List.length_cons, stackSizeLimit]; omega)))
    [retrieveValue, notOne, notPacked, full, Machine.step_of_stackOnly, execItem_dup, execItem_push]

theorem run_storeValue_fullWords (full : type.numBits / 8 = 32)
    (room : rest.length + 5 ≤ stackSizeLimit) :
    (storeValue type type true).bind (Machine.run · ⟨offset :: key :: high :: low :: rest, storage⟩) =
      some ⟨rest, Function.update (Function.update storage (1#128 + key) low) key high⟩ := by
  have top := IntegerType.topBits_of_words (.inr full)
  simp only [storeValue, full, Nat.reduceEqDiff, if_false, if_true, rotateStackUp_three,
    rotateStackDown_three]
  simp only [Option.bind_eq_bind, Option.pure_def, Option.bind_some, Option.map_some,
    List.flatten_cons, List.flatten_nil, List.append_nil, Machine.run_append]
  unfold stackSizeLimit at room
  simp (disch := (first | decide | (simp only [List.length_cons, stackSizeLimit]; omega)))
    [Machine.step_of_stackOnly, execItem_dup, execItem_push,
    Machine.run_stackOnly (convertIntegerType_stackOnly type type true false),
    run_convertIntegerType_self, storedWord, cleanWord_of_topBits top]

theorem run_storeValue_oneWord (one : type.numBits / 8 = 16) (value : BitVec 128)
    (room : rest.length + 3 ≤ stackSizeLimit) :
    (storeValue type type true).bind (Machine.run · ⟨offset :: key :: value :: rest, storage⟩) =
      some ⟨rest, Function.update storage key value⟩ := by
  have top := IntegerType.topBits_of_words (.inl one)
  unfold stackSizeLimit at room
  simp (disch := (first | decide | (simp only [List.length_cons, stackSizeLimit]; omega)))
    [storeValue, one, Machine.run_append, Machine.step_of_stackOnly,
    Machine.run_stackOnly (convertIntegerType_stackOnly type type true false),
    run_convertIntegerType_self, storedWord, cleanWord_of_topBits top]

theorem run_retrieveValue_oneWord (one : type.numBits / 8 = 16) :
    (retrieveValue type true).bind (Machine.run · ⟨offset :: key :: rest, storage⟩) =
      some ⟨storage key :: rest, storage⟩ := by
  simp (disch := decide) [retrieveValue, one, Machine.step_of_stackOnly]

/-! ## Values packed into a slot -/

theorem multiplier_eq (offset : BitVec 128) :
    0x100#128 ^ offset.toNat = BitVec.twoPow 128 (8 * offset.toNat) := by
  rw [show 0x100#128 = BitVec.twoPow 128 8 by decide, twoPow_pow]

theorem storedWord_of_packed (packed : type.numBits < 128) (word : BitVec 128) :
    storedWord type true word = (word.setWidth type.numBits).setWidth 128 := by
  have top : type.topBits = type.numBits := IntegerType.topBits_of_le (by omega)
  unfold storedWord cleanWord
  rw [top]
  cases type.isSigned <;> rfl

theorem run_storeValue_packed (packed : type.numBits / 8 < 16) (value : BitVec 128)
    (fits : offset.toNat + type.numBits / 8 ≤ 16) (room : rest.length + 7 ≤ stackSizeLimit) :
    (storeValue type type true).bind (Machine.run · ⟨offset :: key :: value :: rest, storage⟩) =
      some ⟨rest, Function.update storage key
        (insertField (storage key) value (8 * offset.toNat) type.numBits)⟩ := by
  have whole := type.wholeBytes
  have bits := type.eight_mul_bytes
  have notOne : ¬ type.numBits / 8 = 16 := by omega
  have notFull : ¬ type.numBits / 8 = 32 := by omega
  have one : type.sizeOnStack = 1 := IntegerType.sizeOnStack_of_le (by omega)
  simp only [storeValue, notOne, notFull, packed, one, if_false, if_true]
  simp only [Option.bind_eq_bind, Option.pure_def, Option.bind_some, List.flatten_cons,
    List.flatten_nil, List.append_nil, Machine.run_append, show copyToStackTop (3 + 1) 1 =
      some [.op (.dup 3)] from rfl, popStackSlots, List.replicate_one]
  unfold stackSizeLimit at room
  simp (disch := (first | decide | exact AssemblyItem.touchesStorage_push _ |
      (simp only [List.length_cons, stackSizeLimit]; omega)))
    [Machine.step_of_stackOnly, execItem_dup, execItem_push,
    Machine.run_stackOnly (convertIntegerType_stackOnly type type true true),
    run_convertIntegerType_self]
  rw [storedWord_of_packed (by omega), multiplier_eq, BitVec.mul_twoPow_eq_shiftLeft,
    BitVec.mul_twoPow_eq_shiftLeft, byteMask, bits]
  rfl

theorem run_retrieveValue_packed (packed : type.numBits / 8 < 16)
    (fits : offset.toNat + type.numBits / 8 ≤ 16) (room : rest.length + 3 ≤ stackSizeLimit) :
    (retrieveValue type true).bind (Machine.run · ⟨offset :: key :: rest, storage⟩) =
      some ⟨type.words (extractField (storage key) (8 * offset.toNat) type.numBits) ++ rest,
        storage⟩ := by
  have whole := type.wholeBytes
  have positive := type.positive
  have bits := type.eight_mul_bytes
  have notOne : ¬ type.numBits / 8 = 16 := by omega
  have notFull : ¬ type.numBits / 8 = 32 := by omega
  have one : type.sizeOnStack = 1 := IntegerType.sizeOnStack_of_le (by omega)
  have shifted : BitVec.twoPow 128 (8 * offset.toNat) ≠ 0#128 := twoPow_ne_zero (by omega)
  have down := BitVec.udiv_twoPow_eq_of_lt (x := storage key) (k := 8 * offset.toNat) (by omega)
  unfold stackSizeLimit at room
  cases signed : type.isSigned
  case false =>
    simp (disch := (first | decide | exact AssemblyItem.touchesStorage_push _ |
        (simp only [List.length_cons, stackSizeLimit]; omega)))
      [retrieveValue, notOne, notFull, packed, signed, Machine.step_of_stackOnly, execItem_push,
      multiplier_eq, shifted, down, byteMask, and_mask_eq_setWidth, bits, IntegerType.words, one,
      extractField]
  case true =>
    have extended := signextendInstr_eq_signExtend (k := type.numBits / 8) (by omega) packed
      (storage key >>> (8 * offset.toNat))
    rw [bits] at extended
    simp (disch := (first | decide | exact AssemblyItem.touchesStorage_push _ |
        (simp only [List.length_cons, stackSizeLimit]; omega)))
      [retrieveValue, notOne, notFull, packed, signed, Machine.step_of_stackOnly, execItem_push,
      multiplier_eq, shifted, down, extended, IntegerType.words, one, extractField]

theorem run_setToZero_packed (packed : type.numBits / 8 < 16)
    (room : rest.length + 4 ≤ stackSizeLimit) :
    (setToZero type true).bind (Machine.run · ⟨offset :: key :: rest, storage⟩) =
      some ⟨rest, Function.update storage key
        (insertField (storage key) 0#128 (8 * offset.toNat) type.numBits)⟩ := by
  have whole := type.wholeBytes
  have bits := type.eight_mul_bytes
  have notWide : ¬ 16 < type.numBits / 8 := by omega
  have notOne : ¬ type.numBits / 8 = 16 := by omega
  unfold stackSizeLimit at room
  simp (disch := (first | decide | exact AssemblyItem.touchesStorage_push _ |
      (simp only [List.length_cons, stackSizeLimit]; omega)))
    [setToZero, notWide, notOne, Machine.step_of_stackOnly, execItem_dup, execItem_push]
  rw [multiplier_eq, BitVec.mul_twoPow_eq_shiftLeft, byteMask, bits, Library.insertField_zero]
  rfl

theorem run_setToZero_oneWord (one : type.numBits / 8 = 16)
    (room : rest.length + 2 ≤ stackSizeLimit) :
    (setToZero type true).bind (Machine.run · ⟨offset :: key :: rest, storage⟩) =
      some ⟨rest, Function.update storage key 0#128⟩ := by
  unfold stackSizeLimit at room
  simp (disch := (first | decide | (simp only [List.length_cons, stackSizeLimit]; omega)))
    [setToZero, one, Machine.step_of_stackOnly, execItem_push]

theorem run_setToZero_twoWords (wide : 16 < type.numBits / 8)
    (room : rest.length + 3 ≤ stackSizeLimit) :
    (setToZero type true).bind (Machine.run · ⟨offset :: key :: rest, storage⟩) =
      some ⟨rest, Function.update (Function.update storage key 0#128) (1#128 + key) 0#128⟩ := by
  unfold stackSizeLimit at room
  simp (disch := (first | decide | (simp only [List.length_cons, stackSizeLimit]; omega)))
    [setToZero, wide, Machine.step_of_stackOnly, execItem_dup, execItem_push]

theorem run_storeValue_packed_keep (packed : type.numBits / 8 < 16) (value : BitVec 128)
    (fits : offset.toNat + type.numBits / 8 ≤ 16) (room : rest.length + 7 ≤ stackSizeLimit) :
    (storeValue type type false).bind (Machine.run · ⟨offset :: key :: value :: rest, storage⟩) =
      some ⟨value :: rest, Function.update storage key
        (insertField (storage key) value (8 * offset.toNat) type.numBits)⟩ := by
  have whole := type.wholeBytes
  have bits := type.eight_mul_bytes
  have notOne : ¬ type.numBits / 8 = 16 := by omega
  have notFull : ¬ type.numBits / 8 = 32 := by omega
  have one : type.sizeOnStack = 1 := IntegerType.sizeOnStack_of_le (by omega)
  simp only [storeValue, notOne, notFull, packed, one, if_false, if_true, Bool.false_eq_true]
  simp only [Option.bind_eq_bind, Option.pure_def, Option.bind_some, List.flatten_cons,
    List.flatten_nil, List.append_nil, Machine.run_append, show copyToStackTop (3 + 1) 1 =
      some [.op (.dup 3)] from rfl]
  unfold stackSizeLimit at room
  simp (disch := (first | decide | exact AssemblyItem.touchesStorage_push _ |
      (simp only [List.length_cons, stackSizeLimit]; omega)))
    [Machine.step_of_stackOnly, execItem_dup, execItem_push,
    Machine.run_stackOnly (convertIntegerType_stackOnly type type true true),
    run_convertIntegerType_self]
  rw [storedWord_of_packed (by omega), multiplier_eq, BitVec.mul_twoPow_eq_shiftLeft,
    BitVec.mul_twoPow_eq_shiftLeft, byteMask, bits]
  rfl

theorem run_storeValue_oneWord_keep (one : type.numBits / 8 = 16) (value : BitVec 128)
    (room : rest.length + 4 ≤ stackSizeLimit) :
    (storeValue type type false).bind (Machine.run · ⟨offset :: key :: value :: rest, storage⟩) =
      some ⟨value :: rest, Function.update storage key value⟩ := by
  have top := IntegerType.topBits_of_words (.inl one)
  unfold stackSizeLimit at room
  simp (disch := (first | decide | (simp only [List.length_cons, stackSizeLimit]; omega)))
    [storeValue, one, Machine.run_append, Machine.step_of_stackOnly, execItem_dup,
    Machine.run_stackOnly (convertIntegerType_stackOnly type type true false),
    run_convertIntegerType_self, storedWord, cleanWord_of_topBits top]

theorem run_storeValue_fullWords_keep (full : type.numBits / 8 = 32)
    (room : rest.length + 7 ≤ stackSizeLimit) :
    (storeValue type type false).bind
        (Machine.run · ⟨offset :: key :: high :: low :: rest, storage⟩) =
      some ⟨high :: low :: rest,
        Function.update (Function.update storage (1#128 + key) low) key high⟩ := by
  have top := IntegerType.topBits_of_words (.inr full)
  simp only [storeValue, full, Nat.reduceEqDiff, if_false, if_true, Bool.false_eq_true,
    rotateStackDown_three]
  simp only [Option.bind_eq_bind, Option.pure_def, Option.bind_some, List.flatten_cons,
    List.flatten_nil, List.append_nil, Machine.run_append]
  unfold stackSizeLimit at room
  simp (disch := (first | decide | (simp only [List.length_cons, stackSizeLimit]; omega)))
    [Machine.step_of_stackOnly, execItem_dup, execItem_push,
    Machine.run_stackOnly (convertIntegerType_stackOnly type type true false),
    run_convertIntegerType_self, storedWord, cleanWord_of_topBits top]

theorem run_storeValue_twoWords_keep (wide : 16 < type.numBits / 8)
    (notFull : type.numBits / 8 ≠ 32) (room : rest.length + 7 ≤ stackSizeLimit) :
    (storeValue type type false).bind
        (Machine.run · ⟨offset :: key :: high :: low :: rest, storage⟩) =
      some ⟨high :: low :: rest, Function.update
        (Function.update storage key (storedWord type true high)) (1#128 + key) low⟩ := by
  have notOne : ¬ type.numBits / 8 = 16 := by omega
  have notPacked : ¬ type.numBits / 8 < 16 := by omega
  simp only [storeValue, notOne, notFull, notPacked, if_false, Bool.false_eq_true]
  simp only [Option.bind_eq_bind, Option.pure_def, Option.bind_some, List.flatten_cons,
    List.flatten_nil, List.append_nil, Machine.run_append]
  unfold stackSizeLimit at room
  simp (disch := (first | decide | (simp only [List.length_cons, stackSizeLimit]; omega)))
    [Machine.step_of_stackOnly, execItem_dup, execItem_push,
    Machine.run_stackOnly (convertIntegerType_stackOnly type type true true),
    run_convertIntegerType_self]

end

def storeRetrieve (dataType : IntegerType) (key offset : BitVec 128) (m : Machine) :
    Option Machine := do
  let stored ←
    (storeValue dataType dataType true).bind (Machine.run · ⟨offset :: key :: m.stack, m.storage⟩)
  (retrieveValue dataType true).bind (Machine.run · ⟨offset :: key :: stored.stack, stored.storage⟩)

theorem storeRetrieve_of_runs {type : IntegerType} {key offset : BitVec 128}
    {m stored loaded : Machine}
    (store : (storeValue type type true).bind
      (Machine.run · ⟨offset :: key :: m.stack, m.storage⟩) = some stored)
    (load : (retrieveValue type true).bind
      (Machine.run · ⟨offset :: key :: stored.stack, stored.storage⟩) = some loaded) :
    storeRetrieve type key offset m = some loaded := by
  unfold storeRetrieve
  rw [store]
  exact load

theorem storeRetrieve_twoWords {type : IntegerType} (wide : 16 < type.numBits / 8)
    (notFull : type.numBits / 8 ≠ 32) (key offset high low : BitVec 128)
    (storage : BitVec 128 → BitVec 128) (rest : List (BitVec 128))
    (room : rest.length + 4 ≤ stackSizeLimit) :
    storeRetrieve type key offset ⟨high :: low :: rest, storage⟩ =
      some ⟨storedWord type true high :: low :: rest,
        Function.update (Function.update storage key (storedWord type true high)) (1#128 + key) low⟩ := by
  apply storeRetrieve_of_runs (run_storeValue_twoWords key offset high low storage rest wide notFull room)
  rw [run_retrieveValue_twoWords key offset _ rest wide (by omega)]
  simp

theorem storeRetrieve_fullWords {type : IntegerType} (full : type.numBits / 8 = 32)
    (key offset high low : BitVec 128) (storage : BitVec 128 → BitVec 128)
    (rest : List (BitVec 128)) (room : rest.length + 5 ≤ stackSizeLimit) :
    storeRetrieve type key offset ⟨high :: low :: rest, storage⟩ =
      some ⟨high :: low :: rest,
        Function.update (Function.update storage (1#128 + key) low) key high⟩ := by
  apply storeRetrieve_of_runs (run_storeValue_fullWords key offset high low storage rest full room)
  rw [run_retrieveValue_twoWords key offset _ rest (by omega) (by omega)]
  simp

theorem storeRetrieve_oneWord {type : IntegerType} (one : type.numBits / 8 = 16)
    (key offset value : BitVec 128) (storage : BitVec 128 → BitVec 128)
    (rest : List (BitVec 128)) (room : rest.length + 3 ≤ stackSizeLimit) :
    storeRetrieve type key offset ⟨value :: rest, storage⟩ =
      some ⟨value :: rest, Function.update storage key value⟩ := by
  apply storeRetrieve_of_runs (run_storeValue_oneWord key offset storage rest one value room)
  rw [run_retrieveValue_oneWord key offset _ rest one]
  simp

theorem storeRetrieve_packed {type : IntegerType} (packed : type.numBits / 8 < 16)
    (key offset value : BitVec 128) (storage : BitVec 128 → BitVec 128)
    (rest : List (BitVec 128)) (fits : offset.toNat + type.numBits / 8 ≤ 16)
    (room : rest.length + 7 ≤ stackSizeLimit) :
    storeRetrieve type key offset ⟨value :: rest, storage⟩ =
      some ⟨type.words (value.setWidth type.numBits) ++ rest, Function.update storage key
        (insertField (storage key) value (8 * offset.toNat) type.numBits)⟩ := by
  have whole := type.wholeBytes
  apply storeRetrieve_of_runs (run_storeValue_packed key offset storage rest packed value fits room)
  rw [run_retrieveValue_packed key offset _ rest packed fits (by omega)]
  simp [extractField_insertField _ _ (show 8 * offset.toNat + type.numBits ≤ 128 by omega)]

theorem words_of_signed_twoWords {type : IntegerType} (two : type.sizeOnStack = 2)
    (signed : type.isSigned = true) (pattern : BitVec type.numBits) :
    type.words pattern = twoWords (pattern.signExtend 256) := by
  simp [IntegerType.words, two, signed]

theorem words_of_oneWord {type : IntegerType} (one : type.sizeOnStack = 1)
    (pattern : BitVec type.numBits) :
    type.words pattern = [if type.isSigned then pattern.signExtend 128 else pattern.setWidth 128] := by
  simp [IntegerType.words, one]

theorem words_of_unsigned_twoWords {type : IntegerType} (two : type.sizeOnStack = 2)
    (unsigned : type.isSigned = false) (pattern : BitVec type.numBits) :
    type.words pattern = twoWords (pattern.setWidth 256) := by
  simp [IntegerType.words, two, unsigned]

theorem setWidth_cleanOneWord {type : IntegerType} (narrow : type.numBits ≤ 128)
    (pattern : BitVec type.numBits) :
    (if type.isSigned then pattern.signExtend 128 else pattern.setWidth 128).setWidth
      type.numBits = pattern := by
  apply BitVec.eq_of_getLsbD_eq
  intro i inside
  split <;> simp [BitVec.getLsbD_signExtend, inside] <;> omega

theorem cleanWord_high_of_unsigned {type : IntegerType} (unsigned : type.isSigned = false)
    (above : 128 < type.numBits) (pattern : BitVec type.numBits) :
    cleanWord type (((pattern.setWidth 256) >>> 128).setWidth 128) =
      ((pattern.setWidth 256) >>> 128).setWidth 128 := by
  have atMost := type.atMost256
  have top := IntegerType.topBits_of_lt above
  apply BitVec.eq_of_getLsbD_eq
  intro i inside
  simp only [cleanWord, unsigned, top, Bool.false_eq_true, if_false, BitVec.getLsbD_setWidth,
    BitVec.getLsbD_ushiftRight]
  by_cases low : i < type.numBits - 128
  · simp [low, inside]
  · simp [low, BitVec.getLsbD_of_ge pattern (128 + i) (by omega)]

theorem words_of_twoWords {type : IntegerType} (two : type.sizeOnStack = 2)
    (pattern : BitVec type.numBits) : ∃ high low, type.words pattern = [high, low] := by
  simp [IntegerType.words, two, twoWords]

theorem storeRetrieve_words {type : IntegerType}
    (exact : type.isSigned = true → type.numBits / 8 ≤ 16 ∨ type.numBits / 8 = 32)
    (pattern : BitVec type.numBits) (key offset : BitVec 128) (storage : BitVec 128 → BitVec 128)
    (rest : List (BitVec 128))
    (fits : type.numBits / 8 < 16 → offset.toNat + type.numBits / 8 ≤ 16)
    (room : rest.length + 7 ≤ stackSizeLimit) :
    (storeRetrieve type key offset ⟨type.words pattern ++ rest, storage⟩).map Machine.stack =
      some (type.words pattern ++ rest) := by
  have whole := type.wholeBytes
  have atMost := type.atMost256
  rcases Nat.lt_trichotomy (type.numBits / 8) 16 with packed | one | wide
  case inl =>
    have single : type.sizeOnStack = 1 := IntegerType.sizeOnStack_of_le (by omega)
    rw [words_of_oneWord single, List.singleton_append,
      storeRetrieve_packed packed _ _ _ _ _ (fits packed) room, setWidth_cleanOneWord (by omega),
      words_of_oneWord single]
    rfl
  case inr.inl =>
    have single : type.sizeOnStack = 1 := IntegerType.sizeOnStack_of_le (by omega)
    rw [words_of_oneWord single, List.singleton_append,
      storeRetrieve_oneWord one _ _ _ _ _ (by omega)]
    rfl
  case inr.inr =>
    have two : type.sizeOnStack = 2 := IntegerType.sizeOnStack_of_lt (by omega)
    by_cases full : type.numBits / 8 = 32
    · obtain ⟨high, low, pair⟩ := words_of_twoWords two pattern
      rw [pair, List.cons_append, List.cons_append, List.nil_append,
        storeRetrieve_fullWords full _ _ _ _ _ _ (by omega)]
      rfl
    · -- the exact round trip needs an unsigned type here
      have unsigned : type.isSigned = false := by
        cases signed : type.isSigned
        · rfl
        · have := exact signed
          omega
      rw [words_of_unsigned_twoWords two unsigned, twoWords, List.cons_append, List.cons_append,
        List.nil_append, storeRetrieve_twoWords wide full _ _ _ _ _ _ (by omega)]
      simp [storedWord, unsigned, cleanWord_high_of_unsigned unsigned (by omega)]

theorem storeValue_keep {type : IntegerType} (key offset : BitVec 128)
    (storage : BitVec 128 → BitVec 128) (value rest : List (BitVec 128))
    (size : value.length = type.sizeOnStack)
    (fits : type.numBits / 8 < 16 → offset.toNat + type.numBits / 8 ≤ 16)
    (room : rest.length + 7 ≤ stackSizeLimit) :
    (storeValue type type false).bind (Machine.run · ⟨offset :: key :: (value ++ rest), storage⟩) =
      ((storeValue type type true).bind
        (Machine.run · ⟨offset :: key :: (value ++ rest), storage⟩)).map
          fun stored => ⟨value ++ stored.stack, stored.storage⟩ := by
  have whole := type.wholeBytes
  have atMost := type.atMost256
  rcases Nat.lt_trichotomy (type.numBits / 8) 16 with packed | one | wide
  case inl =>
    have single : type.sizeOnStack = 1 := IntegerType.sizeOnStack_of_le (by omega)
    obtain ⟨word, rfl⟩ := List.length_eq_one_iff.mp (size.trans single)
    rw [List.singleton_append, run_storeValue_packed_keep key offset storage rest packed word
      (fits packed) room, run_storeValue_packed key offset storage rest packed word (fits packed)
      room]
    rfl
  case inr.inl =>
    have single : type.sizeOnStack = 1 := IntegerType.sizeOnStack_of_le (by omega)
    obtain ⟨word, rfl⟩ := List.length_eq_one_iff.mp (size.trans single)
    rw [List.singleton_append, run_storeValue_oneWord_keep key offset storage rest one word
      (by omega), run_storeValue_oneWord key offset storage rest one word (by omega)]
    rfl
  case inr.inr =>
    have two : type.sizeOnStack = 2 := IntegerType.sizeOnStack_of_lt (by omega)
    obtain ⟨high, low, rfl⟩ := List.length_eq_two.mp (size.trans two)
    by_cases full : type.numBits / 8 = 32
    · rw [List.cons_append, List.cons_append, List.nil_append,
        run_storeValue_fullWords_keep key offset high low storage rest full room,
        run_storeValue_fullWords key offset high low storage rest full (by omega)]
      rfl
    · rw [List.cons_append, List.cons_append, List.nil_append,
        run_storeValue_twoWords_keep key offset high low storage rest wide full room,
        run_storeValue_twoWords key offset high low storage rest wide full (by omega)]
      rfl

theorem storeValue_frame {type : IntegerType} (key offset : BitVec 128)
    (storage : BitVec 128 → BitVec 128) (value rest : List (BitVec 128))
    (size : value.length = type.sizeOnStack)
    (fits : type.numBits / 8 < 16 → offset.toNat + type.numBits / 8 ≤ 16)
    (room : rest.length + 7 ≤ stackSizeLimit) :
    ∃ stored, (storeValue type type true).bind
        (Machine.run · ⟨offset :: key :: (value ++ rest), storage⟩) = some stored ∧
      stored.stack = rest ∧
      (∀ other, other ≠ key → (type.sizeOnStack = 2 → other ≠ 1#128 + key) →
        stored.storage other = storage other) ∧
      (type.numBits / 8 < 16 → ∀ i, i < 8 * offset.toNat ∨ 8 * offset.toNat + type.numBits ≤ i →
        (stored.storage key).getLsbD i = (storage key).getLsbD i) := by
  have whole := type.wholeBytes
  have atMost := type.atMost256
  rcases Nat.lt_trichotomy (type.numBits / 8) 16 with packed | one | wide
  case inl =>
    have single : type.sizeOnStack = 1 := IntegerType.sizeOnStack_of_le (by omega)
    obtain ⟨word, rfl⟩ := List.length_eq_one_iff.mp (size.trans single)
    refine ⟨_, run_storeValue_packed key offset storage rest packed word (fits packed) room, rfl,
      fun other differ _ => Function.update_of_ne differ _ _, fun _ i outside => ?_⟩
    simp only [Function.update_self]
    exact Library.getLsbD_insertField_of_outside _ _ outside
  case inr.inl =>
    have single : type.sizeOnStack = 1 := IntegerType.sizeOnStack_of_le (by omega)
    obtain ⟨word, rfl⟩ := List.length_eq_one_iff.mp (size.trans single)
    exact ⟨_, run_storeValue_oneWord key offset storage rest one word (by omega), rfl,
      fun other differ _ => Function.update_of_ne differ _ _, fun packed => absurd packed (by omega)⟩
  case inr.inr =>
    have two : type.sizeOnStack = 2 := IntegerType.sizeOnStack_of_lt (by omega)
    obtain ⟨high, low, rfl⟩ := List.length_eq_two.mp (size.trans two)
    by_cases full : type.numBits / 8 = 32
    · refine ⟨_, run_storeValue_fullWords key offset high low storage rest full (by omega), rfl,
        fun other differ next => ?_, fun packed => absurd packed (by omega)⟩
      dsimp only
      rw [Function.update_of_ne differ, Function.update_of_ne (next two)]
    · refine ⟨_, run_storeValue_twoWords key offset high low storage rest wide full (by omega), rfl,
        fun other differ next => ?_, fun packed => absurd packed (by omega)⟩
      dsimp only
      rw [Function.update_of_ne (next two), Function.update_of_ne differ]

def clearRetrieve (dataType : IntegerType) (key offset : BitVec 128) (m : Machine) :
    Option Machine := do
  let cleared ← (setToZero dataType true).bind (Machine.run · ⟨offset :: key :: m.stack, m.storage⟩)
  (retrieveValue dataType true).bind
    (Machine.run · ⟨offset :: key :: cleared.stack, cleared.storage⟩)

theorem clearRetrieve_of_runs {type : IntegerType} {key offset : BitVec 128}
    {m cleared loaded : Machine}
    (clear : (setToZero type true).bind
      (Machine.run · ⟨offset :: key :: m.stack, m.storage⟩) = some cleared)
    (load : (retrieveValue type true).bind
      (Machine.run · ⟨offset :: key :: cleared.stack, cleared.storage⟩) = some loaded) :
    clearRetrieve type key offset m = some loaded := by
  unfold clearRetrieve
  rw [clear]
  exact load

theorem clearRetrieve_words {type : IntegerType} (key offset : BitVec 128)
    (storage : BitVec 128 → BitVec 128) (rest : List (BitVec 128))
    (fits : type.numBits / 8 < 16 → offset.toNat + type.numBits / 8 ≤ 16)
    (room : rest.length + 4 ≤ stackSizeLimit) :
    (clearRetrieve type key offset ⟨rest, storage⟩).map Machine.stack =
      some (type.words (0 : BitVec type.numBits) ++ rest) := by
  have whole := type.wholeBytes
  rcases Nat.lt_trichotomy (type.numBits / 8) 16 with packed | one | wide
  case inl =>
    rw [clearRetrieve_of_runs (run_setToZero_packed key offset storage rest packed room)
      (run_retrieveValue_packed key offset _ rest packed (fits packed) (by omega))]
    simp [extractField_insertField _ _ (show 8 * offset.toNat + type.numBits ≤ 128 by omega)]
  case inr.inl =>
    have single : type.sizeOnStack = 1 := IntegerType.sizeOnStack_of_le (by omega)
    rw [clearRetrieve_of_runs (run_setToZero_oneWord key offset storage rest one (by omega))
      (run_retrieveValue_oneWord key offset _ rest one), words_of_oneWord single]
    simp
  case inr.inr =>
    have two : type.sizeOnStack = 2 := IntegerType.sizeOnStack_of_lt (by omega)
    rw [clearRetrieve_of_runs (run_setToZero_twoWords key offset storage rest wide (by omega))
      (run_retrieveValue_twoWords key offset _ rest wide (by omega))]
    simp [IntegerType.words, two, twoWords, Library.signExtend_zero]

theorem msb_high_of_negative {type : IntegerType} (pattern : BitVec type.numBits)
    (negative : pattern.msb = true) :
    (((pattern.signExtend 256) >>> 128).setWidth 128).msb = true := by
  have atMost := type.atMost256
  have positive := type.positive
  rw [BitVec.msb_eq_getLsbD_last]
  simp only [Nat.add_one_sub_one, BitVec.getLsbD_setWidth, BitVec.getLsbD_ushiftRight]
  simp only [BitVec.getLsbD_signExtend]
  by_cases full : 128 + 127 < type.numBits
  · -- a pattern of 256 bits: its top bit is its sign bit
    have last : 128 + 127 = type.numBits - 1 := by omega
    have sign : pattern.getLsbD (128 + 127) = pattern.msb := by
      rw [last, BitVec.msb_eq_getLsbD_last]
    simp [full, sign, negative]
  · simp [full, negative]

theorem msb_setWidth_setWidth {k : Nat} (narrow : k < 128) (word : BitVec 128) :
    ((word.setWidth k).setWidth 128).msb = false := by
  rw [BitVec.msb_eq_getLsbD_last]
  simp [BitVec.getLsbD_setWidth]
  omega

def int136 : IntegerType := ⟨136, .signed, by decide, by decide, by decide, by decide⟩

theorem storageItem_signed_twoWord_drops_sign :
    (∀ type : IntegerType, type.isSigned = true → 128 < type.numBits → type.numBits < 256 →
      ∀ (pattern : BitVec type.numBits), pattern.msb = true →
      ∀ (key : BitVec 128) (storage : BitVec 128 → BitVec 128) (rest : List (BitVec 128)),
        rest.length + 4 ≤ stackSizeLimit →
        (storeRetrieve type key 0#128 ⟨type.words pattern ++ rest, storage⟩).map Machine.stack ≠
          some (type.words pattern ++ rest)) ∧
      computeOffsets [.integer 136 .signed] = some ⟨[some (0, 0)], 2⟩ ∧
      int136.words (BitVec.allOnes 136) = [BitVec.allOnes 128, BitVec.allOnes 128] ∧
      (storeRetrieve int136 0#128 0#128 ⟨int136.words (BitVec.allOnes 136), fun _ => 0#128⟩).map
        Machine.stack = some [0xFF#128, BitVec.allOnes 128] := by
  refine ⟨?_, by decide, by decide, by decide⟩
  intro type signed above below pattern negative key storage rest room
  have two := IntegerType.sizeOnStack_of_lt above
  have whole := type.wholeBytes
  have narrow : type.topBits < 128 := by rw [IntegerType.topBits_of_lt above]; omega
  rw [words_of_signed_twoWords two signed, twoWords, List.cons_append, List.cons_append,
    List.nil_append, storeRetrieve_twoWords (by omega) (by omega) _ _ _ _ _ _ room]
  simp only [storedWord, signed, Bool.and_true, if_true, Option.map_some, ne_eq, Option.some.injEq,
    List.cons.injEq, not_and]
  intro same
  have := msb_setWidth_setWidth narrow (((pattern.signExtend 256) >>> 128).setWidth 128)
  rw [same, msb_high_of_negative pattern negative] at this
  exact absurd this (by decide)

theorem storageItem_signed_twoWord_at_int136 :
    int136.isSigned = true ∧ 128 < int136.numBits ∧ int136.numBits < 256 ∧
      (BitVec.allOnes int136.numBits).msb = true ∧
      ([] : List (BitVec 128)).length + 4 ≤ stackSizeLimit ∧
      (storeRetrieve int136 0#128 0#128
          ⟨int136.words (BitVec.allOnes int136.numBits) ++ [], fun _ => 0#128⟩).map Machine.stack ≠
        some (int136.words (BitVec.allOnes int136.numBits) ++ []) :=
  ⟨by decide, by decide, by decide, by decide, by decide,
    storageItem_signed_twoWord_drops_sign.1 int136 (by decide) (by decide) (by decide)
      (BitVec.allOnes int136.numBits) (by decide) 0#128 (fun _ => 0#128) [] (by decide)⟩

end AionFastVM.Solc
