import AionFastVM.Solc.Assembly
import AionFastVM.Solc.StorageLayout

/-!
# Comparison operators

`a op b` starts with `a` on top of `b`. `none` stands where a `solAssert` fails.
-/

namespace AionFastVM.Solc
open AionFastVM.Jit (Instruction stackSizeLimit)

inductive CompareOp where
  | equal | notEqual | lessThan | greaterThan | lessThanOrEqual | greaterThanOrEqual
  deriving DecidableEq, Repr

namespace CompareOp

def ordering : CompareOp → Bool
  | equal | notEqual => false
  | _ => true

theorem not_equality {operator : CompareOp} (isOrdering : operator.ordering = true) :
    ¬(operator = equal ∨ operator = notEqual) := by
  rintro (rfl | rfl) <;> simp [ordering] at isOrdering

theorem equality {operator : CompareOp} (notOrdering : operator.ordering = false) :
    operator = equal ∨ operator = notEqual := by
  cases operator <;> simp_all [ordering]

def holds {α : Type} [LinearOrder α] : CompareOp → α → α → Bool
  | equal, x, y => decide (x = y)
  | notEqual, x, y => decide (x ≠ y)
  | lessThan, x, y => decide (x < y)
  | greaterThan, x, y => decide (y < x)
  | lessThanOrEqual, x, y => decide (x ≤ y)
  | greaterThanOrEqual, x, y => decide (y ≤ x)

end CompareOp

structure CompareType where
  sizeOnStack : Nat
  internalFunction : Bool
  integer : Option IntegerModifier
  fixedBytes : Bool
  deriving DecidableEq, Repr

namespace CompareType

def ofInteger (bits : Nat) (modifier : IntegerModifier) : CompareType :=
  ⟨if SolType.numBits bits modifier > 128 then 2 else 1, false, some modifier, false⟩

def ofFixedBytes (bytes : Nat) : CompareType := ⟨if bytes > 16 then 2 else 1, false, none, true⟩

end CompareType

def numberedInstruction (family : Fin 32 → Instruction) (number : Nat) : Option Instruction :=
  if range : 1 ≤ number ∧ number ≤ 32 then some (family ⟨number - 1, by omega⟩) else none

def swapInstruction (number : Nat) : Option Instruction := numberedInstruction .swap number

def rotateStackUp (items : Nat) : Option (List AssemblyItem) :=
  if items - 1 ≤ 32 then
    ((List.range (items - 1)).mapM fun i => (swapInstruction (items - (i + 1))).map .op)
  else none

def rotateStackDown (items : Nat) : Option (List AssemblyItem) :=
  if items - 1 ≤ 32 then ((List.range (items - 1)).mapM fun i => (swapInstruction (i + 1)).map .op)
  else none

theorem rotateStackUp_three : rotateStackUp 3 = some [.op (.swap 1), .op (.swap 0)] := rfl

theorem rotateStackDown_three : rotateStackDown 3 = some [.op (.swap 0), .op (.swap 1)] := rfl

def functionMask : BitVec 128 := BitVec.ofNat 128 (2 ^ 32 - 1)

def functionMasks (type : CompareType) : List AssemblyItem :=
  if type.internalFunction then
    [.push functionMask, .op .and, .op (.swap 0), .push functionMask, .op .and]
  else []

def equalityCode (type : CompareType) : Option (List AssemblyItem) :=
  if type.sizeOnStack = 1 then some (functionMasks type ++ [.op .eq])
  else
    (rotateStackDown 3).bind fun down => (rotateStackUp 3).map fun up =>
      functionMasks type ++ down ++ [.op .eq] ++ up ++ [.op .eq, .op .and]

def orderingInstruction (isSigned : Bool) : CompareOp → Option (Instruction × Bool)
  | .greaterThanOrEqual => some (if isSigned then .slt else .lt, true)
  | .lessThanOrEqual => some (if isSigned then .sgt else .gt, true)
  | .greaterThan => some (if isSigned then .sgt else .gt, false)
  | .lessThan => some (if isSigned then .slt else .lt, false)
  | _ => none

def negation (negate : Bool) : List AssemblyItem := if negate then [.op .iszero] else []

def twoWordOrdering (compare : Instruction) : List AssemblyItem :=
  [.op (.dup 0), .op (.dup 3), .op compare, .op (.dup 1), .op (.dup 4), .op .eq,
    .op (.dup 2), .op (.dup 5), .op compare, .op .and, .op .or]

def popFour : List AssemblyItem := [.op .pop, .op .pop, .op .pop, .op .pop]

def appendCompareOperatorCode (operator : CompareOp) (type : CompareType) :
    Option (List AssemblyItem) :=
  if ¬(type.sizeOnStack = 1 ∨ type.sizeOnStack = 2) then none
  else if operator = .equal ∨ operator = .notEqual then
    (equalityCode type).map (· ++ negation (operator = .notEqual))
  else if type.sizeOnStack = 1 then
    (orderingInstruction (type.integer == some .signed) operator).map fun (compare, negate) =>
      .op compare :: negation negate
  else if type.integer == some .address || (type.fixedBytes && type.sizeOnStack == 2) then
    (orderingInstruction false operator).map fun (compare, negate) =>
      twoWordOrdering compare ++ negation negate ++ popFour
  else none

section
variable (rest : List (BitVec 128))

def rotatedEquality : List AssemblyItem :=
  [.op (.swap 0), .op (.swap 1), .op .eq, .op (.swap 1), .op (.swap 0), .op .eq, .op .and]

theorem equalityCode_twoWord {type : CompareType} (two : type.sizeOnStack = 2)
    (notFunction : type.internalFunction = false) : equalityCode type = some rotatedEquality := by
  simp [equalityCode, functionMasks, two, notFunction, rotateStackUp_three, rotateStackDown_three,
    rotatedEquality]

theorem run_twoWordEquality (a b : BitVec 256) :
    run rotatedEquality (twoWords a ++ twoWords b ++ rest) = some (zextBool (a == b) :: rest) := by
  have same : (a.setWidth 128 == b.setWidth 128 &&
      (b >>> 128).setWidth 128 == (a >>> 128).setWidth 128) = (a == b) := by
    rw [Bool.eq_iff_iff, Bool.and_eq_true, beq_iff_eq, beq_iff_eq, beq_iff_eq, eq_iff_twoWords a b,
      and_comm, eq_comm]
  simp [rotatedEquality, twoWords, same]

theorem run_twoWordOrdering {compare : Instruction} {f : BitVec 128 → BitVec 128 → BitVec 128}
    (binary : binaryOp compare = some f) (ah al bh bl : BitVec 128)
    (room : rest.length + 8 ≤ stackSizeLimit) :
    run (twoWordOrdering compare) (ah :: al :: bh :: bl :: rest) =
      some ((f bh ah &&& zextBool (bh == ah) ||| f bh ah) :: ah :: al :: bh :: bl :: rest) := by
  unfold stackSizeLimit at room
  simp (disch := (simp only [List.length_cons, stackSizeLimit]; omega)) [twoWordOrdering,
    execItem_dup, execItem_binary binary]

theorem run_negation_popFour (negate : Bool) (result ah al bh bl : BitVec 128) :
    run (negation negate ++ popFour) (result :: ah :: al :: bh :: bl :: rest) = some (bl :: rest) := by
  cases negate <;> simp [negation, popFour]

end

theorem binaryOp_of_orderingInstruction {isSigned : Bool} {operator : CompareOp}
    {compare : Instruction} {negate : Bool}
    (picked : orderingInstruction isSigned operator = some (compare, negate)) :
    ∃ f, binaryOp compare = some f := by
  cases operator <;> cases isSigned <;> simp [orderingInstruction] at picked <;>
    obtain ⟨rfl, rfl⟩ := picked <;> exact ⟨_, rfl⟩

theorem appendCompareOperatorCode_twoWordOrdering {type : CompareType}
    (two : type.sizeOnStack = 2) (valid : type.integer = some .address ∨ type.fixedBytes = true)
    {operator : CompareOp} (ordering : operator.ordering = true) :
    ∃ compare negate, (∃ f, binaryOp compare = some f) ∧
      appendCompareOperatorCode operator type =
        some (twoWordOrdering compare ++ negation negate ++ popFour) := by
  obtain ⟨⟨compare, negate⟩, picked⟩ : ∃ p, orderingInstruction false operator = some p := by
    cases operator <;> simp_all [CompareOp.ordering, orderingInstruction]
  have notEquality := CompareOp.not_equality ordering
  refine ⟨compare, negate, binaryOp_of_orderingInstruction picked, ?_⟩
  simp only [appendCompareOperatorCode, two, notEquality, picked]
  simpa using valid.resolve_left

theorem twoWord_ordering_code {type : CompareType} (two : type.sizeOnStack = 2)
    (valid : type.integer = some .address ∨ type.fixedBytes = true) {operator : CompareOp}
    (ordering : operator.ordering = true) (a b : BitVec 256) (rest : List (BitVec 128))
    (room : rest.length + 8 ≤ stackSizeLimit) :
    ∃ code, appendCompareOperatorCode operator type = some code ∧
      run code (twoWords a ++ twoWords b ++ rest) = some (b.setWidth 128 :: rest) := by
  obtain ⟨compare, negate, ⟨f, binary⟩, code⟩ :=
    appendCompareOperatorCode_twoWordOrdering two valid ordering
  refine ⟨_, code, ?_⟩
  simp only [twoWords, List.cons_append, List.nil_append]
  rw [List.append_assoc, run_append, run_twoWordOrdering rest binary _ _ _ _ room, Option.bind_some,
    run_negation_popFour]

theorem twoWord_equality {type : CompareType} (two : type.sizeOnStack = 2)
    (notFunction : type.internalFunction = false) {operator : CompareOp}
    (equality : operator.ordering = false) (a b : BitVec 256) (rest : List (BitVec 128)) :
    ∃ code, appendCompareOperatorCode operator type = some code ∧
      run code (twoWords a ++ twoWords b ++ rest) =
        some (zextBool (operator.holds a.toNat b.toNat) :: rest) := by
  have picked := CompareOp.equality equality
  have code : appendCompareOperatorCode operator type =
      some (rotatedEquality ++ negation (operator = .notEqual)) := by
    simp [appendCompareOperatorCode, two, picked, equalityCode_twoWord two notFunction]
  refine ⟨_, code, ?_⟩
  rw [run_append, run_twoWordEquality, Option.bind_some]
  rcases picked with rfl | rfl <;>
    simp [negation, CompareOp.holds, BitVec.toNat_inj, Bool.beq_eq_decide_eq]

def equalityView (type : CompareType) (word : BitVec 128) : BitVec 128 :=
  if type.internalFunction then functionMask &&& word else word

theorem run_maskedEquality (type : CompareType) (a b : BitVec 128) (rest : List (BitVec 128))
    (room : rest.length + 3 ≤ stackSizeLimit) :
    run (functionMasks type ++ [.op .eq]) (a :: b :: rest) =
      some (zextBool (decide (equalityView type a = equalityView type b)) :: rest) := by
  unfold stackSizeLimit at room
  by_cases function : type.internalFunction <;>
    simp (disch := (simp only [List.length_cons, stackSizeLimit]; omega)) [functionMasks,
      equalityView, function, execItem_push, Bool.beq_eq_decide_eq, eq_comm]

theorem oneWord_equality {type : CompareType} (one : type.sizeOnStack = 1) {operator : CompareOp}
    (equality : operator.ordering = false) (a b : BitVec 128) (rest : List (BitVec 128))
    (room : rest.length + 3 ≤ stackSizeLimit) :
    ∃ code, appendCompareOperatorCode operator type = some code ∧
      run code (a :: b :: rest) = some (zextBool
        (operator.holds (equalityView type a).toNat (equalityView type b).toNat) :: rest) := by
  have picked := CompareOp.equality equality
  have code : appendCompareOperatorCode operator type =
      some (functionMasks type ++ [.op .eq] ++ negation (operator = .notEqual)) := by
    simp [appendCompareOperatorCode, equalityCode, one, picked]
  refine ⟨_, code, ?_⟩
  rw [run_append, run_maskedEquality type a b rest room, Option.bind_some]
  rcases picked with rfl | rfl <;> simp [negation, CompareOp.holds, BitVec.toNat_inj, -BitVec.toNat_and]

theorem not_decide_lt {α : Type} [LinearOrder α] (x y : α) : (!decide (x < y)) = decide (y ≤ x) := by
  rw [Bool.eq_iff_iff]
  simp

theorem oneWord_ordering {type : CompareType} (one : type.sizeOnStack = 1) {operator : CompareOp}
    (ordering : operator.ordering = true) (a b : BitVec 128) (rest : List (BitVec 128)) :
    ∃ code, appendCompareOperatorCode operator type = some code ∧
      run code (a :: b :: rest) =
        some (zextBool (if type.integer = some .signed then operator.holds a.toInt b.toInt
          else operator.holds a.toNat b.toNat) :: rest) := by
  have notEquality := CompareOp.not_equality ordering
  by_cases signed : type.integer = some .signed <;>
    cases operator <;> simp_all [appendCompareOperatorCode, orderingInstruction, negation,
      CompareOp.holds, BitVec.ult, BitVec.slt, not_decide_lt]

theorem wideInteger_ordering_rejected {bits : Nat} {modifier : IntegerModifier}
    (wide : 128 < bits) (notAddress : modifier ≠ .address) {operator : CompareOp}
    (ordering : operator.ordering = true) :
    appendCompareOperatorCode operator (.ofInteger bits modifier) = none := by
  have notEquality := CompareOp.not_equality ordering
  cases modifier
  case address => exact absurd rfl notAddress
  all_goals simp [appendCompareOperatorCode, CompareType.ofInteger, SolType.numBits, wide,
    notEquality]

/-- Two-word orderings leave `b`'s low word in place of their result. -/
theorem twoWord_ordering_pops_result :
    (∀ (bits : Nat) (operator : CompareOp), operator.ordering = true →
      ∀ (a b : BitVec 256) (rest : List (BitVec 128)), rest.length + 8 ≤ stackSizeLimit →
        ∃ code, appendCompareOperatorCode operator (.ofInteger bits .address) = some code ∧
          run code (twoWords a ++ twoWords b ++ rest) = some (b.setWidth 128 :: rest)) ∧
      (∀ bytes : Nat, 16 < bytes → ∀ operator : CompareOp, operator.ordering = true →
        ∀ (a b : BitVec 256) (rest : List (BitVec 128)), rest.length + 8 ≤ stackSizeLimit →
          ∃ code, appendCompareOperatorCode operator (.ofFixedBytes bytes) = some code ∧
            run code (twoWords a ++ twoWords b ++ rest) = some (b.setWidth 128 :: rest)) ∧
      CompareOp.lessThan.holds (0#256).toNat (BitVec.ofNat 256 (2 ^ 128)).toNat = true ∧
      (BitVec.ofNat 256 (2 ^ 128)).setWidth 128 = 0#128 := by
  refine ⟨fun bits operator ordering a b rest room => ?_, fun bytes wide operator ordering a b rest room => ?_,
    by decide, by decide⟩
  · exact twoWord_ordering_code (by simp [CompareType.ofInteger, SolType.numBits]) (.inl rfl) ordering
      a b rest room
  · exact twoWord_ordering_code (by simp [CompareType.ofFixedBytes, wide]) (.inr rfl) ordering
      a b rest room

theorem twoWord_ordering_at_address_and_bytes32 :
    (∃ code, appendCompareOperatorCode .lessThan (.ofInteger 160 .address) = some code ∧
      run code (twoWords 0#256 ++ twoWords (BitVec.ofNat 256 (2 ^ 128)) ++ []) =
        some ((BitVec.ofNat 256 (2 ^ 128)).setWidth 128 :: [])) ∧
      (∃ code, appendCompareOperatorCode .greaterThanOrEqual (.ofFixedBytes 32) = some code ∧
        run code (twoWords 0#256 ++ twoWords 1#256 ++ []) = some ((1#256).setWidth 128 :: [])) :=
  ⟨twoWord_ordering_pops_result.1 160 .lessThan rfl _ _ [] (by decide),
    twoWord_ordering_pops_result.2.1 32 (by decide) .greaterThanOrEqual rfl _ _ [] (by decide)⟩

end AionFastVM.Solc
