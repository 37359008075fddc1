import Mathlib
import AionFastVM.Solc.Convert
import AionFastVM.Library.Labels
import AionFastVM.Library.DoubleWord
import AionFastVM.Library.BitField

/-!
# Operator code

The code runs with its tags and jumps (`Library.exec`): `appendConditionalJump` and
`appendJumpToNew` are one labelled jump each, which needs a free stack slot for its tag.
-/

namespace AionFastVM.Solc

open AionFastVM.Jit (Instruction stackSizeLimit sdiv_eq_ofInt sdivInstr modInstr smodInstr
  sdivInstr_eq modInstr_eq smodInstr_eq)
open AionFastVM.Library (Labelled exec runItems runItems_nil runItems_cons runItems_append
  exec_append exec_items exec_branch exec_skipUnless high low two_pow udiv_twoPow bind_some_run
  ite_udiv high_and low_and high_or low_or high_xor low_xor high_not low_not high_shiftLeft_of_lt
  high_shiftLeft_of_le low_shiftLeft low_shiftLeft_of_le high_ushiftRight low_ushiftRight_of_lt
  low_ushiftRight_of_le high_ushiftRight_of_le)

inductive Token where
  | add | sub | mul | div | mod | exp
  | bitOr | bitAnd | bitXor
  | shl | sar | shr
  deriving DecidableEq, Repr

inductive UnaryToken where
  | not | bitNot | add | sub
  deriving DecidableEq, Repr

def Token.isArithmeticOp : Token → Bool
  | .add | .sub | .mul | .div | .mod | .exp => true
  | _ => false

/-- What an arithmetic operator means on a one-word integer type; a zero divisor has no value. -/
def arithmeticValue (operator : Token) (isSigned : Bool) (lhs rhs : BitVec 128) :
    Option (BitVec 128) :=
  match operator with
  | .add => some (lhs + rhs)
  | .sub => some (lhs - rhs)
  | .mul => some (lhs * rhs)
  | .div => if rhs = 0#128 then none else some (if isSigned then lhs.sdiv rhs else lhs / rhs)
  | .mod => if rhs = 0#128 then none else some (if isSigned then lhs.srem rhs else lhs % rhs)
  | .exp => some (lhs ^ rhs.toNat)
  | _ => none

def bitValue {w : Nat} : Token → BitVec w → BitVec w → Option (BitVec w)
  | .bitOr, a, b => some (a ||| b)
  | .bitAnd, a, b => some (a &&& b)
  | .bitXor, a, b => some (a ^^^ b)
  | _, _, _ => none

/-- SDIV, MOD and SMOD are what the JIT computes (`sdivInstr_agrees`, `modInstr_agrees`,
`smodInstr_agrees`). -/
def operatorBinaryOp : Instruction → Option (BitVec 128 → BitVec 128 → BitVec 128)
  | .sub => some fun lhs rhs => lhs - rhs
  | .sdiv => some fun lhs rhs =>
    if rhs = 0#128 then 0#128 else BitVec.ofInt 128 (lhs.toInt.tdiv rhs.toInt)
  | .mod => some fun lhs rhs => if rhs = 0#128 then 0#128 else lhs % rhs
  | .smod => some fun lhs rhs =>
    if rhs = 0#128 then 0#128 else BitVec.ofInt 128 (lhs.toInt.tmod rhs.toInt)
  | _ => none

theorem sdivInstr_agrees (undefY undefR d n : BitVec 128) :
    sdivInstr undefY undefR d n = (operatorBinaryOp .sdiv).map fun f => some (f d n) := by
  rw [sdivInstr_eq]
  rfl

theorem modInstr_agrees (undefY undefR d n : BitVec 128) :
    modInstr undefY undefR d n = (operatorBinaryOp .mod).map fun f => some (f d n) := by
  rw [modInstr_eq]
  rfl

theorem smodInstr_agrees (undefY undefR d n : BitVec 128) :
    smodInstr undefY undefR d n = (operatorBinaryOp .smod).map fun f => some (f d n) := by
  rw [smodInstr_eq]
  rfl

def execOperatorItem (stack : List (BitVec 128)) : AssemblyItem → Option (List (BitVec 128))
  | .op instruction =>
    match operatorBinaryOp instruction, stack with
    | some f, lhs :: rhs :: rest => some (f lhs rhs :: rest)
    | some _, _ => none
    | none, _ => execItem stack (.op instruction)
  | item => execItem stack item

def jumpRoom (stack : List (BitVec 128)) : Option (List (BitVec 128)) :=
  if stack.length < stackSizeLimit then some stack else none

def jumpCondition (stack : List (BitVec 128)) : Option (Bool × List (BitVec 128)) :=
  if stack.length < stackSizeLimit then
    match stack with
    | condition :: rest => some (condition != 0#128, rest)
    | [] => none
  else none

def runOperatorCode (code : List (Labelled AssemblyItem)) (stack : List (BitVec 128)) :
    Option (List (BitVec 128)) :=
  match exec execOperatorItem jumpRoom jumpCondition code none stack with
  | some (none, after) => some after
  | _ => none

def plain (items : List AssemblyItem) : List (Labelled AssemblyItem) := items.map .item

def appendConditionalInvalid (tag : Nat) : List (Labelled AssemblyItem) :=
  .item (.op .iszero) :: .jumpi tag :: .item (.op (.invalid 0xfe)) :: [.label tag]

def bitInstruction : Token → Option Instruction
  | .bitOr => some .or
  | .bitAnd => some .and
  | .bitXor => some .xor
  | _ => none

def appendBitOperatorCode (operator : Token) (sizeOnStack : Nat) : Option (List AssemblyItem) := do
  let instruction ← bitInstruction operator
  if sizeOnStack = 1 then pure [.op instruction]
  else if sizeOnStack = 2 then
    pure [.op (.swap 0), .op (.swap 1), .op instruction, .op (.swap 1), .op instruction,
      .op (.swap 0)]
  else none

def negativeAmountCheck (tags : Nat) : List (Labelled AssemblyItem) :=
  plain [.push 0#128, .op (.dup 2), .op .slt] ++ appendConditionalInvalid tags

def amountBelowWord : List AssemblyItem :=
  [.op (.dup 2), .push 128#128, .op (.swap 0), .op .lt]

def shlFromWord : List AssemblyItem :=
  [.op .pop, .push 0#128, .op (.swap 1), .push 128#128, .op (.swap 0), .op .sub, .push 2#128,
    .op .exp, .op .mul]

def shlWithinWord : List AssemblyItem :=
  [.op (.dup 2), .push 2#128, .op .exp, .op .mul,
    .op (.dup 1), .op (.dup 3), .push 128#128, .op .sub,
    .push 2#128, .op .exp, .op (.swap 0), .op .div, .op .or,
    .op (.swap 1), .push 2#128, .op .exp, .op .mul, .op (.swap 0)]

def sarFromWord : List AssemblyItem :=
  [.op (.swap 0), .op .pop, .op (.swap 0), .push 128#128, .op (.swap 0), .op .sub, .push 2#128,
    .op .exp, .op (.swap 0), .op .div, .push 0#128]

def sarWithinWord : List AssemblyItem :=
  [.op (.swap 0), .op (.dup 2), .push 2#128, .op .exp, .op (.swap 0), .op .div,
    .op (.dup 1), .op (.dup 3), .push 128#128, .op .sub,
    .push 2#128, .op .exp, .op .mul, .op .or,
    .op (.swap 1), .push 2#128, .op .exp, .op (.swap 0), .op .div]

def twoWordShift (fromWord withinWord : List AssemblyItem) (trueTag endTag : Nat) :
    List (Labelled AssemblyItem) :=
  plain amountBelowWord ++ .jumpi trueTag ::
    (plain fromWord ++ .jump endTag :: .label trueTag :: (plain withinWord ++ [.label endTag]))

def appendShiftOperatorCode (operator : Token) (valueSigned amountSigned : Bool)
    (valueSize amountSize tags : Nat) : Option (List (Labelled AssemblyItem)) :=
  -- shift by negative amount throws exception
  let negativeCheck := if amountSigned then negativeAmountCheck tags else []
  let trueTag := tags + 1
  let endTag := tags + 2
  if amountSize ≠ 1 then none
  else if valueSize = 1 then
    match operator with
    | .shl => some (negativeCheck ++ plain [.op (.swap 0), .push 2#128, .op .exp, .op .mul])
    | .sar => some (negativeCheck ++ plain [.op (.swap 0), .push 2#128, .op .exp, .op (.swap 0),
        .op (if valueSigned then .sdiv else .div)])
    | _ => none
  else if valueSize = 2 then
    match operator with
    | .shl => some (negativeCheck ++ twoWordShift shlFromWord shlWithinWord trueTag endTag)
    | .sar => some (negativeCheck ++ twoWordShift sarFromWord sarWithinWord trueTag endTag)
    | _ => none
  else none

def appendArithmeticOperatorCode (operator : Token) (type : IntegerType) (tags : Nat) :
    Option (List (Labelled AssemblyItem)) :=
  if type.sizeOnStack ≠ 1 then none
  else
    match operator with
    | .add => some (plain [.op .add])
    | .sub => some (plain [.op .sub])
    | .mul => some (plain [.op .mul])
    | .div | .mod =>
      -- Test for division by zero
      some (plain [.op (.dup 1), .op .iszero] ++ appendConditionalInvalid tags ++
        plain [.op (if operator = .div then (if type.isSigned then .sdiv else .div)
          else (if type.isSigned then .smod else .mod))])
    | .exp => some (plain [.op .exp])
    | _ => none

def unaryOperationCode (operator : UnaryToken) (sizeOnStack : Nat) : List AssemblyItem :=
  match operator with
  | .not => [.op .iszero]
  | .bitNot =>
    .op .not :: if sizeOnStack = 2 then [.op (.swap 0), .op .not, .op (.swap 0)] else []
  | .add => []
  | .sub => [.push 0#128, .op .sub]

section
variable (rest : List (BitVec 128)) (top lhs rhs : BitVec 128)

theorem execOperatorItem_of_isNone {instruction : Instruction}
    (plainOp : (operatorBinaryOp instruction).isNone = true) (stack : List (BitVec 128)) :
    execOperatorItem stack (.op instruction) = execItem stack (.op instruction) := by
  cases operator : operatorBinaryOp instruction with
  | none => simp only [execOperatorItem, operator]
  | some f => simp [operator] at plainOp

theorem execOperatorItem_of_binary {instruction : Instruction}
    {f : BitVec 128 → BitVec 128 → BitVec 128} (binary : operatorBinaryOp instruction = some f) :
    execOperatorItem (lhs :: rhs :: rest) (.op instruction) = some (f lhs rhs :: rest) := by
  simp only [execOperatorItem, binary]

/-! One lemma for each instruction of the operator code. They cite the two lemmas above and are
not proved by `rfl`, so that `simp` rewrites with them instead of unfolding `execOperatorItem`,
whose match over every instruction the kernel would otherwise check again at each step of a run. -/

@[simp] theorem execOperatorItem_push (stack : List (BitVec 128)) (value : BitVec 128) :
    execOperatorItem stack (.push value) = execItem stack (.push value) := by
  simp only [execOperatorItem]

@[simp] theorem execOperatorItem_dup (stack : List (BitVec 128)) (index : Fin 32) :
    execOperatorItem stack (.op (.dup index)) = execItem stack (.op (.dup index)) :=
  execOperatorItem_of_isNone rfl stack

@[simp] theorem execOperatorItem_swap (index : Fin 32) :
    execOperatorItem (top :: rest) (.op (.swap index)) =
      rest[index.val]?.map fun val => val :: rest.set index.val top :=
  (execOperatorItem_of_isNone rfl _).trans (execItem_swap rest index top)

@[simp] theorem execOperatorItem_pop : execOperatorItem (top :: rest) (.op .pop) = some rest :=
  (execOperatorItem_of_isNone rfl _).trans (execItem_pop rest top)

@[simp] theorem execOperatorItem_iszero :
    execOperatorItem (top :: rest) (.op .iszero) = some (zextBool (top == 0#128) :: rest) :=
  (execOperatorItem_of_isNone rfl _).trans (execItem_iszero rest top)

@[simp] theorem execOperatorItem_not :
    execOperatorItem (top :: rest) (.op .not) = some (~~~top :: rest) :=
  (execOperatorItem_of_isNone rfl _).trans (execItem_not rest top)

@[simp] theorem execOperatorItem_invalid (stack : List (BitVec 128)) (code : UInt8) :
    execOperatorItem stack (.op (.invalid code)) = none := by
  rw [execOperatorItem_of_isNone rfl]
  rfl

@[simp] theorem execOperatorItem_lt :
    execOperatorItem (lhs :: rhs :: rest) (.op .lt) = some (zextBool (lhs.ult rhs) :: rest) :=
  (execOperatorItem_of_isNone rfl _).trans (execItem_lt rest lhs rhs)

@[simp] theorem execOperatorItem_slt :
    execOperatorItem (lhs :: rhs :: rest) (.op .slt) = some (zextBool (lhs.slt rhs) :: rest) :=
  (execOperatorItem_of_isNone rfl _).trans (execItem_slt rest lhs rhs)

@[simp] theorem execOperatorItem_and :
    execOperatorItem (lhs :: rhs :: rest) (.op .and) = some ((lhs &&& rhs) :: rest) :=
  (execOperatorItem_of_isNone rfl _).trans (execItem_and rest lhs rhs)

@[simp] theorem execOperatorItem_or :
    execOperatorItem (lhs :: rhs :: rest) (.op .or) = some ((lhs ||| rhs) :: rest) :=
  (execOperatorItem_of_isNone rfl _).trans (execItem_or rest lhs rhs)

@[simp] theorem execOperatorItem_xor :
    execOperatorItem (lhs :: rhs :: rest) (.op .xor) = some ((lhs ^^^ rhs) :: rest) :=
  (execOperatorItem_of_isNone rfl _).trans (execItem_xor rest lhs rhs)

@[simp] theorem execOperatorItem_add :
    execOperatorItem (lhs :: rhs :: rest) (.op .add) = some ((lhs + rhs) :: rest) :=
  (execOperatorItem_of_isNone rfl _).trans (execItem_add rest lhs rhs)

@[simp] theorem execOperatorItem_mul :
    execOperatorItem (lhs :: rhs :: rest) (.op .mul) = some ((lhs * rhs) :: rest) :=
  (execOperatorItem_of_isNone rfl _).trans (execItem_mul rest lhs rhs)

@[simp] theorem execOperatorItem_div :
    execOperatorItem (lhs :: rhs :: rest) (.op .div) =
      some ((if rhs = 0#128 then 0#128 else lhs / rhs) :: rest) :=
  (execOperatorItem_of_isNone rfl _).trans (execItem_div rest lhs rhs)

@[simp] theorem execOperatorItem_exp :
    execOperatorItem (lhs :: rhs :: rest) (.op .exp) = some ((lhs ^ rhs.toNat) :: rest) :=
  (execOperatorItem_of_isNone rfl _).trans (execItem_exp rest lhs rhs)

@[simp] theorem execOperatorItem_sub :
    execOperatorItem (lhs :: rhs :: rest) (.op .sub) = some ((lhs - rhs) :: rest) :=
  execOperatorItem_of_binary rest lhs rhs rfl

@[simp] theorem execOperatorItem_sdiv :
    execOperatorItem (lhs :: rhs :: rest) (.op .sdiv) = some (lhs.sdiv rhs :: rest) := by
  rw [@execOperatorItem_of_binary rest lhs rhs .sdiv _ rfl, sdiv_eq_ofInt]
  split
  · rename_i zero
    simp [zero]
  · rfl

@[simp] theorem execOperatorItem_mod :
    execOperatorItem (lhs :: rhs :: rest) (.op .mod) =
      some ((if rhs = 0#128 then 0#128 else lhs % rhs) :: rest) :=
  @execOperatorItem_of_binary rest lhs rhs .mod _ rfl

@[simp] theorem execOperatorItem_smod :
    execOperatorItem (lhs :: rhs :: rest) (.op .smod) =
      some ((if rhs = 0#128 then 0#128 else lhs.srem rhs) :: rest) := by
  rw [@execOperatorItem_of_binary rest lhs rhs .smod _ rfl, AionFastVM.Jit.srem_eq_ofInt]

theorem runItems_operator_cons (item : AssemblyItem) (items : List AssemblyItem) :
    runItems execOperatorItem (item :: items) (top :: rest) =
      (execOperatorItem (top :: rest) item).bind (runItems execOperatorItem items) := by
  rw [runItems_cons]

theorem jumpRoom_of_lt {stack : List (BitVec 128)} (room : stack.length < stackSizeLimit) :
    jumpRoom stack = some stack := by
  simp [jumpRoom, room]

theorem jumpCondition_cons (room : rest.length + 1 < stackSizeLimit) :
    jumpCondition (top :: rest) = some (top != 0#128, rest) := by
  simp only [jumpCondition, List.length_cons, room, ↓reduceIte]

@[simp] theorem zextBool_bne_zero (x : Bool) : (zextBool x != 0#128) = x := by
  cases x <;> decide

end

theorem runOperatorCode_of_exec {code : List (Labelled AssemblyItem)} {stack : List (BitVec 128)}
    {result : Option (List (BitVec 128))}
    (ends : exec execOperatorItem jumpRoom jumpCondition code none stack = result.map (none, ·)) :
    runOperatorCode code stack = result := by
  unfold runOperatorCode
  rw [ends]
  cases result <;> rfl

theorem exec_plain (items : List AssemblyItem) (stack : List (BitVec 128)) :
    exec execOperatorItem jumpRoom jumpCondition (plain items) none stack =
      (runItems execOperatorItem items stack).map (none, ·) :=
  exec_items _ _ _ items stack

theorem runOperatorCode_plain (items : List AssemblyItem) (stack : List (BitVec 128)) :
    runOperatorCode (plain items) stack = runItems execOperatorItem items stack :=
  runOperatorCode_of_exec (exec_plain items stack)

theorem runOperatorCode_branch (pre otherwise taken : List AssemblyItem) {t e : Nat}
    (distinct : t ≠ e) (stack : List (BitVec 128)) :
    runOperatorCode (plain pre ++ .jumpi t :: (plain otherwise ++
        .jump e :: .label t :: (plain taken ++ [.label e]))) stack =
      (runItems execOperatorItem pre stack).bind fun compared =>
        (jumpCondition compared).bind fun r =>
          if r.1 then runItems execOperatorItem taken r.2
          else (runItems execOperatorItem otherwise r.2).bind jumpRoom := by
  apply runOperatorCode_of_exec
  unfold plain
  rw [exec_append, exec_items, Option.map_bind]
  cases runItems execOperatorItem pre stack with
  | none => rfl
  | some compared =>
    simp only [Option.map_some, Option.bind_some, Function.comp_def, Option.map_bind]
    exact exec_branch _ _ _ _ _ distinct compared

theorem exec_conditionalInvalid (test : List AssemblyItem) (tags : Nat)
    (code : List (Labelled AssemblyItem)) {stack : List (BitVec 128)} {condition : BitVec 128}
    (tested : runItems execOperatorItem test stack = some (condition :: stack))
    (room : stack.length + 1 < stackSizeLimit) :
    exec execOperatorItem jumpRoom jumpCondition (plain test ++ appendConditionalInvalid tags ++ code)
        none stack =
      if condition = 0#128 then exec execOperatorItem jumpRoom jumpCondition code none stack
      else none := by
  have guarded : plain test ++ appendConditionalInvalid tags =
      plain (test ++ [.op .iszero]) ++
        .jumpi tags :: (plain [.op (.invalid 0xfe)] ++ [.label tags]) := by
    simp [plain, appendConditionalInvalid]
  have negated : runItems execOperatorItem (test ++ [.op .iszero]) stack =
      some (zextBool (condition == 0#128) :: stack) := by
    rw [runItems_append, tested, bind_some_run, runItems_operator_cons, execOperatorItem_iszero,
      bind_some_run, runItems_nil]
  rw [guarded, exec_append, exec_append]
  unfold plain
  rw [exec_items, negated, Option.map_some, bind_some_run, exec_skipUnless,
    jumpCondition_cons _ _ (by simpa using room), bind_some_run, zextBool_bne_zero]
  by_cases zero : condition = 0#128 <;> simp [zero]

section
variable (k x : BitVec 128) (items : List AssemblyItem) (rest : List (BitVec 128))

theorem runItems_shiftLeft (room : rest.length + 3 ≤ stackSizeLimit) :
    runItems execOperatorItem (.push 2#128 :: .op .exp :: .op .mul :: items) (k :: x :: rest) =
      runItems execOperatorItem items ((x <<< k.toNat) :: rest) := by
  unfold stackSizeLimit at room
  simp (disch := (simp only [List.length_cons, stackSizeLimit]; omega)) only
    [runItems_operator_cons, execOperatorItem_push, execItem_push, execOperatorItem_exp,
     execOperatorItem_mul, bind_some_run, two_pow, BitVec.twoPow_mul_eq_shiftLeft]

theorem runItems_shiftRight (room : rest.length + 3 ≤ stackSizeLimit) :
    runItems execOperatorItem (.push 2#128 :: .op .exp :: .op (.swap 0) :: .op .div :: items)
        (k :: x :: rest) =
      runItems execOperatorItem items ((x >>> k.toNat) :: rest) := by
  unfold stackSizeLimit at room
  simp (disch := (simp only [List.length_cons, stackSizeLimit]; omega)) only
    [runItems_operator_cons, execOperatorItem_push, execItem_push, execOperatorItem_exp,
     execOperatorItem_swap, execOperatorItem_div, bind_some_run, Option.map_some,
     List.getElem?_cons_zero, List.set_cons_zero, Fin.coe_ofNat_eq_mod, Nat.reduceMod, two_pow,
     ↓ite_udiv, udiv_twoPow]

end

theorem twoWords_eq_halves (v : BitVec 256) :
    twoWords v = [high (v : BitVec (128 + 128)), low (v : BitVec (128 + 128))] := rfl

theorem msb_low (v : BitVec 256) : (@low 128 v).msb = v.getLsbD 127 := by
  simp [low, BitVec.msb_eq_getLsbD_last]

theorem toNat_sub_of_lt {amount : BitVec 128} (short : amount.toNat < 128) :
    (128#128 - amount).toNat = 128 - amount.toNat := by
  rw [BitVec.toNat_sub_of_le (by rw [BitVec.le_def]; simp; omega)]
  simp

theorem toNat_sub_of_ge {amount : BitVec 128} (long : ¬ amount.toNat < 128) :
    (amount - 128#128).toNat = amount.toNat - 128 := by
  rw [BitVec.toNat_sub_of_le (by rw [BitVec.le_def]; simp; omega)]
  simp

section
variable (high low amount : BitVec 128) (rest : List (BitVec 128))

theorem run_amountBelowWord (room : rest.length + 5 ≤ stackSizeLimit) :
    runItems execOperatorItem amountBelowWord (high :: low :: amount :: rest) =
      some (zextBool (amount.ult 128#128) :: high :: low :: amount :: rest) := by
  unfold stackSizeLimit at room
  simp (disch := (simp only [List.length_cons, stackSizeLimit]; omega)) only
    [amountBelowWord, runItems_operator_cons, runItems_nil, execOperatorItem_push, execItem_push,
     execOperatorItem_dup, execItem_dup, execOperatorItem_swap, execOperatorItem_lt, bind_some_run,
     Option.map_some, List.getElem?_cons_succ, List.getElem?_cons_zero, List.set_cons_zero,
     Fin.coe_ofNat_eq_mod, Nat.reduceMod]

theorem run_shlFromWord (room : rest.length + 5 ≤ stackSizeLimit) :
    runItems execOperatorItem shlFromWord (high :: low :: amount :: rest) =
      some ((low <<< (amount - 128#128).toNat) :: 0#128 :: rest) := by
  unfold stackSizeLimit at room
  simp (disch := (simp only [List.length_cons, stackSizeLimit]; omega)) only
    [↓runItems_shiftLeft, shlFromWord, runItems_operator_cons, runItems_nil, execOperatorItem_push,
     execItem_push, execOperatorItem_pop, execOperatorItem_swap, execOperatorItem_sub,
     bind_some_run, Option.map_some, List.getElem?_cons_succ, List.getElem?_cons_zero,
     List.set_cons_zero, List.set_cons_succ, Fin.coe_ofNat_eq_mod, Nat.reduceMod]

theorem run_shlWithinWord (room : rest.length + 6 ≤ stackSizeLimit) :
    runItems execOperatorItem shlWithinWord (high :: low :: amount :: rest) =
      some ((low >>> (128#128 - amount).toNat ||| high <<< amount.toNat) ::
        (low <<< amount.toNat) :: rest) := by
  unfold stackSizeLimit at room
  simp (disch := (simp only [List.length_cons, stackSizeLimit]; omega)) only
    [↓runItems_shiftLeft, ↓runItems_shiftRight, shlWithinWord, runItems_operator_cons, runItems_nil,
     execOperatorItem_push, execItem_push, execOperatorItem_dup, execItem_dup,
     execOperatorItem_swap, execOperatorItem_or, execOperatorItem_sub, bind_some_run,
     Option.map_some, List.getElem?_cons_succ, List.getElem?_cons_zero, List.set_cons_zero,
     List.set_cons_succ, Fin.coe_ofNat_eq_mod, Nat.reduceMod]

theorem run_sarFromWord (room : rest.length + 5 ≤ stackSizeLimit) :
    runItems execOperatorItem sarFromWord (high :: low :: amount :: rest) =
      some (0#128 :: (high >>> (amount - 128#128).toNat) :: rest) := by
  unfold stackSizeLimit at room
  simp (disch := (simp only [List.length_cons, stackSizeLimit]; omega)) only
    [↓runItems_shiftRight, sarFromWord, runItems_operator_cons, runItems_nil, execOperatorItem_push,
     execItem_push, execOperatorItem_pop, execOperatorItem_swap, execOperatorItem_sub,
     bind_some_run, Option.map_some, List.getElem?_cons_zero, List.set_cons_zero,
     Fin.coe_ofNat_eq_mod, Nat.reduceMod]

theorem run_sarWithinWord (room : rest.length + 6 ≤ stackSizeLimit) :
    runItems execOperatorItem sarWithinWord (high :: low :: amount :: rest) =
      some ((high >>> amount.toNat) ::
        (high <<< (128#128 - amount).toNat ||| low >>> amount.toNat) :: rest) := by
  unfold stackSizeLimit at room
  simp (disch := (simp only [List.length_cons, stackSizeLimit]; omega)) only
    [↓runItems_shiftLeft, ↓runItems_shiftRight, sarWithinWord, runItems_operator_cons, runItems_nil,
     execOperatorItem_push, execItem_push, execOperatorItem_dup, execItem_dup,
     execOperatorItem_swap, execOperatorItem_or, execOperatorItem_sub, bind_some_run,
     Option.map_some, List.getElem?_cons_succ, List.getElem?_cons_zero, List.set_cons_zero,
     List.set_cons_succ, Fin.coe_ofNat_eq_mod, Nat.reduceMod]

theorem runOperatorCode_twoWordShift (fromWord withinWord : List AssemblyItem) (tags : Nat)
    (room : rest.length + 5 ≤ stackSizeLimit) :
    runOperatorCode (twoWordShift fromWord withinWord (tags + 1) (tags + 2))
        (high :: low :: amount :: rest) =
      if amount.toNat < 128 then
        runItems execOperatorItem withinWord (high :: low :: amount :: rest)
      else (runItems execOperatorItem fromWord (high :: low :: amount :: rest)).bind jumpRoom := by
  have tested : jumpCondition (zextBool (amount.ult 128#128) :: high :: low :: amount :: rest) =
      some (decide (amount.toNat < 128), high :: low :: amount :: rest) := by
    rw [jumpCondition_cons _ _ (by simp only [List.length_cons, stackSizeLimit] at room ⊢; omega),
      zextBool_bne_zero, BitVec.ult_eq_decide]
    rfl
  unfold twoWordShift
  rw [runOperatorCode_branch _ _ _ (by omega), run_amountBelowWord _ _ _ _ (by omega),
    bind_some_run, tested, bind_some_run]
  simp only [decide_eq_true_eq]

end

/-! ## Shifts -/

theorem runOperatorCode_shl (tags : Nat) (v : BitVec 256) (amount : BitVec 128)
    (rest : List (BitVec 128)) (room : rest.length + 6 ≤ stackSizeLimit) :
    runOperatorCode (twoWordShift shlFromWord shlWithinWord (tags + 1) (tags + 2))
        (twoWords v ++ amount :: rest) = some (twoWords (v <<< amount.toNat) ++ rest) := by
  rw [twoWords_eq_halves, twoWords_eq_halves]
  simp only [List.cons_append, List.nil_append]
  rw [runOperatorCode_twoWordShift _ _ _ _ _ _ _ (by omega)]
  by_cases short : amount.toNat < 128
  · rw [if_pos short, run_shlWithinWord _ _ _ _ room, high_shiftLeft_of_lt _ short, low_shiftLeft,
      toNat_sub_of_lt short, BitVec.or_comm]
  · rw [if_neg short, run_shlFromWord _ _ _ _ (by omega), bind_some_run, toNat_sub_of_ge short,
      high_shiftLeft_of_le _ (by omega), low_shiftLeft_of_le _ (by omega)]
    exact jumpRoom_of_lt (by simp only [List.length_cons, stackSizeLimit] at room ⊢; omega)

theorem runOperatorCode_sar (tags : Nat) (v : BitVec 256) (amount : BitVec 128)
    (rest : List (BitVec 128)) (room : rest.length + 6 ≤ stackSizeLimit) :
    runOperatorCode (twoWordShift sarFromWord sarWithinWord (tags + 1) (tags + 2))
        (twoWords v ++ amount :: rest) = some (twoWords (v >>> amount.toNat) ++ rest) := by
  rw [twoWords_eq_halves, twoWords_eq_halves]
  simp only [List.cons_append, List.nil_append]
  rw [runOperatorCode_twoWordShift _ _ _ _ _ _ _ (by omega)]
  by_cases short : amount.toNat < 128
  · rw [if_pos short, run_sarWithinWord _ _ _ _ room, high_ushiftRight,
    low_ushiftRight_of_lt _ short,
      toNat_sub_of_lt short, BitVec.or_comm]
  · rw [if_neg short, run_sarFromWord _ _ _ _ (by omega), bind_some_run, toNat_sub_of_ge short,
      high_ushiftRight_of_le _ (by omega), low_ushiftRight_of_le _ (by omega)]
    exact jumpRoom_of_lt (by simp only [List.length_cons, stackSizeLimit] at room ⊢; omega)

theorem exec_checked (amountSigned : Bool) (tags : Nat) (code : List (Labelled AssemblyItem))
    (first second : BitVec 128) (rest : List (BitVec 128)) (room : rest.length + 4 ≤ stackSizeLimit) :
    exec execOperatorItem jumpRoom jumpCondition
        ((if amountSigned then negativeAmountCheck tags else []) ++ code) none
        (first :: second :: rest) =
      if amountSigned && second.msb then none
      else exec execOperatorItem jumpRoom jumpCondition code none (first :: second :: rest) := by
  cases amountSigned with
  | false => rfl
  | true =>
    have tested : runItems execOperatorItem [.push 0#128, .op (.dup 2), .op .slt]
        (first :: second :: rest) = some (zextBool second.msb :: first :: second :: rest) := by
      unfold stackSizeLimit at room
      simp (disch := (simp only [List.length_cons, stackSizeLimit]; omega)) only
        [runItems_operator_cons, runItems_nil, execOperatorItem_push, execItem_push,
         execOperatorItem_dup, execItem_dup, execOperatorItem_slt, bind_some_run, Option.map_some,
         List.getElem?_cons_succ, List.getElem?_cons_zero, Fin.coe_ofNat_eq_mod, Nat.reduceMod,
         BitVec.slt_zero_eq_msb]
    rw [if_pos rfl, negativeAmountCheck, exec_conditionalInvalid _ _ _ tested
      (by simp only [List.length_cons, stackSizeLimit] at room ⊢; omega)]
    cases second.msb <;> simp

theorem runOperatorCode_checked (amountSigned : Bool) (tags : Nat)
    (code : List (Labelled AssemblyItem)) (first second : BitVec 128) (rest : List (BitVec 128))
    (room : rest.length + 4 ≤ stackSizeLimit) :
    runOperatorCode ((if amountSigned then negativeAmountCheck tags else []) ++ code)
        (first :: second :: rest) =
      if amountSigned && second.msb then none
      else runOperatorCode code (first :: second :: rest) := by
  unfold runOperatorCode
  rw [exec_checked amountSigned tags code first second rest room]
  split_ifs <;> rfl

/-- Two-word SHL; a signed amount is checked by bit 127 of the value. -/
theorem shl_twoWords (valueSigned amountSigned : Bool) (tags : Nat) (v : BitVec 256)
    (amount : BitVec 128) (rest : List (BitVec 128)) (room : rest.length + 6 ≤ stackSizeLimit) :
    ∃ code, appendShiftOperatorCode .shl valueSigned amountSigned 2 1 tags = some code ∧
      runOperatorCode code (twoWords v ++ amount :: rest) =
        if amountSigned && v.getLsbD 127 then none
        else some (twoWords (v <<< amount.toNat) ++ rest) := by
  refine ⟨_, rfl, ?_⟩
  have checked := runOperatorCode_checked amountSigned tags
    (twoWordShift shlFromWord shlWithinWord (tags + 1) (tags + 2)) (@high 128 v) (@low 128 v)
    (amount :: rest) (by simp only [List.length_cons] at room ⊢; omega)
  rw [msb_low, ← List.nil_append (amount :: rest), ← List.cons_append, ← List.cons_append,
    ← twoWords_eq_halves, runOperatorCode_shl tags v amount rest room] at checked
  exact checked

theorem shl_twoWords_across_words :
    ([] : List (BitVec 128)).length + 6 ≤ stackSizeLimit ∧
      ∃ code, appendShiftOperatorCode .shl false true 2 1 0 = some code ∧
        runOperatorCode code (twoWords 1#256 ++ [200#128]) =
          if true && (1#256).getLsbD 127 then none
          else some (twoWords (1#256 <<< (200#128).toNat) ++ []) :=
  ⟨by decide, shl_twoWords false true 0 1#256 200#128 [] (by decide)⟩

/-- Two-word SAR shifts zeros in, also for a negative `int256`. -/
theorem sar_twoWords (valueSigned amountSigned : Bool) (tags : Nat) (v : BitVec 256)
    (amount : BitVec 128) (rest : List (BitVec 128)) (room : rest.length + 6 ≤ stackSizeLimit) :
    ∃ code, appendShiftOperatorCode .sar valueSigned amountSigned 2 1 tags = some code ∧
      runOperatorCode code (twoWords v ++ amount :: rest) =
        if amountSigned && v.getLsbD 127 then none
        else some (twoWords (v >>> amount.toNat) ++ rest) := by
  refine ⟨_, rfl, ?_⟩
  have checked := runOperatorCode_checked amountSigned tags
    (twoWordShift sarFromWord sarWithinWord (tags + 1) (tags + 2)) (@high 128 v) (@low 128 v)
    (amount :: rest) (by simp only [List.length_cons] at room ⊢; omega)
  rw [msb_low, ← List.nil_append (amount :: rest), ← List.cons_append, ← List.cons_append,
    ← twoWords_eq_halves, runOperatorCode_sar tags v amount rest room] at checked
  exact checked

theorem sar_twoWords_of_negative :
    ([] : List (BitVec 128)).length + 6 ≤ stackSizeLimit ∧
      ∃ code, appendShiftOperatorCode .sar true false 2 1 0 = some code ∧
        runOperatorCode code (twoWords (-1#256) ++ [4#128]) =
          if false && (-1#256).getLsbD 127 then none
          else some (twoWords ((-1#256) >>> (4#128).toNat) ++ []) :=
  ⟨by decide, sar_twoWords true false 0 (-1#256) 4#128 [] (by decide)⟩

theorem runItems_shlOneWord (value amount : BitVec 128) (rest : List (BitVec 128))
    (room : rest.length + 3 ≤ stackSizeLimit) :
    runItems execOperatorItem [.op (.swap 0), .push 2#128, .op .exp, .op .mul]
      (value :: amount :: rest) = some ((value <<< amount.toNat) :: rest) := by
  rw [runItems_operator_cons, execOperatorItem_swap]
  simp only [List.getElem?_cons_zero, Fin.coe_ofNat_eq_mod, Nat.reduceMod, Option.map_some,
    List.set_cons_zero, bind_some_run]
  rw [runItems_shiftLeft _ _ _ _ room, runItems_nil]

theorem runItems_sarOneWord (valueSigned : Bool) (value amount : BitVec 128)
    (rest : List (BitVec 128)) (room : rest.length + 4 ≤ stackSizeLimit) :
    runItems execOperatorItem [.op (.swap 0), .push 2#128, .op .exp, .op (.swap 0),
        .op (if valueSigned then .sdiv else .div)] (value :: amount :: rest) =
      some ((if valueSigned then value.sdiv (BitVec.twoPow 128 amount.toNat)
        else value >>> amount.toNat) :: rest) := by
  unfold stackSizeLimit at room
  cases valueSigned <;>
    simp (disch := (simp only [List.length_cons, stackSizeLimit]; omega)) only
      [↓runItems_shiftRight, runItems_operator_cons, runItems_nil, execOperatorItem_push,
       execItem_push, execOperatorItem_swap, execOperatorItem_exp, execOperatorItem_sdiv,
       bind_some_run, Option.map_some, List.getElem?_cons_zero, List.set_cons_zero,
       Fin.coe_ofNat_eq_mod, Nat.reduceMod, two_pow, Bool.false_eq_true, ↓reduceIte]

/-- One-word SHL. -/
theorem shl_oneWord (valueSigned amountSigned : Bool) (tags : Nat) (value amount : BitVec 128)
    (rest : List (BitVec 128)) (room : rest.length + 4 ≤ stackSizeLimit) :
    ∃ code, appendShiftOperatorCode .shl valueSigned amountSigned 1 1 tags = some code ∧
      runOperatorCode code (value :: amount :: rest) =
        if amountSigned && amount.msb then none
        else some ((value <<< amount.toNat) :: rest) := by
  refine ⟨_, rfl, ?_⟩
  rw [runOperatorCode_checked _ _ _ _ _ _ room, runOperatorCode_plain,
    runItems_shlOneWord _ _ _ (by omega)]

theorem shl_oneWord_by_130 :
    ([] : List (BitVec 128)).length + 4 ≤ stackSizeLimit ∧
      ∃ code, appendShiftOperatorCode .shl false false 1 1 0 = some code ∧
        runOperatorCode code [3#128, 130#128] =
          if false && (130#128).msb then none else some [3#128 <<< (130#128).toNat] :=
  ⟨by decide, shl_oneWord false false 0 3#128 130#128 [] (by decide)⟩

/-- One-word SAR; a signed value is divided with SDIV, which truncates. -/
theorem sar_oneWord (valueSigned amountSigned : Bool) (tags : Nat) (value amount : BitVec 128)
    (rest : List (BitVec 128)) (room : rest.length + 4 ≤ stackSizeLimit) :
    ∃ code, appendShiftOperatorCode .sar valueSigned amountSigned 1 1 tags = some code ∧
      runOperatorCode code (value :: amount :: rest) =
        if amountSigned && amount.msb then none
        else some ((if valueSigned then value.sdiv (BitVec.twoPow 128 amount.toNat)
          else value >>> amount.toNat) :: rest) := by
  refine ⟨_, rfl, ?_⟩
  rw [runOperatorCode_checked _ _ _ _ _ _ room, runOperatorCode_plain,
    runItems_sarOneWord _ _ _ _ room]

theorem sar_oneWord_of_negative :
    ([] : List (BitVec 128)).length + 4 ≤ stackSizeLimit ∧
      ∃ code, appendShiftOperatorCode .sar true false 1 1 0 = some code ∧
        runOperatorCode code [-3#128, 1#128] =
          if false && (1#128).msb then none
          else some [if true then (-3#128).sdiv (BitVec.twoPow 128 (1#128).toNat)
            else (-3#128) >>> (1#128).toNat] :=
  ⟨by decide, sar_oneWord true false 0 (-3#128) 1#128 [] (by decide)⟩

/-! ## Arithmetic -/

theorem exec_divisionGuard (tags : Nat) (code : List (Labelled AssemblyItem))
    (lhs rhs : BitVec 128) (rest : List (BitVec 128)) (room : rest.length + 4 ≤ stackSizeLimit) :
    exec execOperatorItem jumpRoom jumpCondition
        (plain [.op (.dup 1), .op .iszero] ++ appendConditionalInvalid tags ++ code) none
        (lhs :: rhs :: rest) =
      if rhs = 0#128 then none
      else exec execOperatorItem jumpRoom jumpCondition code none (lhs :: rhs :: rest) := by
  have tested : runItems execOperatorItem [.op (.dup 1), .op .iszero] (lhs :: rhs :: rest) =
      some (zextBool (rhs == 0#128) :: lhs :: rhs :: rest) := by
    unfold stackSizeLimit at room
    simp (disch := (simp only [List.length_cons, stackSizeLimit]; omega)) only
      [runItems_operator_cons, runItems_nil, execOperatorItem_dup, execItem_dup,
       execOperatorItem_iszero, bind_some_run, Option.map_some, List.getElem?_cons_succ,
       List.getElem?_cons_zero, Fin.coe_ofNat_eq_mod, Nat.reduceMod]
  rw [exec_conditionalInvalid _ _ _ tested
    (by simp only [List.length_cons, stackSizeLimit] at room ⊢; omega)]
  by_cases zero : rhs = 0#128 <;> simp [zero]

theorem runOperatorCode_divisionGuard (tags : Nat) (code : List (Labelled AssemblyItem))
    (lhs rhs : BitVec 128) (rest : List (BitVec 128)) (room : rest.length + 4 ≤ stackSizeLimit) :
    runOperatorCode (plain [.op (.dup 1), .op .iszero] ++ appendConditionalInvalid tags ++ code)
        (lhs :: rhs :: rest) =
      if rhs = 0#128 then none else runOperatorCode code (lhs :: rhs :: rest) := by
  unfold runOperatorCode
  rw [exec_divisionGuard tags code lhs rhs rest room]
  split_ifs <;> rfl

/-- The arithmetic of a one-word integer type. -/
theorem arithmetic_oneWord {operator : Token} (arithmetic : operator.isArithmeticOp = true)
    {type : IntegerType} (one : type.sizeOnStack = 1) (tags : Nat) (lhs rhs : BitVec 128)
    (rest : List (BitVec 128)) (room : rest.length + 4 ≤ stackSizeLimit) :
    ∃ code, appendArithmeticOperatorCode operator type tags = some code ∧
      runOperatorCode code (lhs :: rhs :: rest) =
        (arithmeticValue operator type.isSigned lhs rhs).map (· :: rest) := by
  have plainOp (instruction : Instruction) (result : BitVec 128)
      (step : execOperatorItem (lhs :: rhs :: rest) (.op instruction) = some (result :: rest)) :
      runOperatorCode (plain [.op instruction]) (lhs :: rhs :: rest) = some (result :: rest) := by
    rw [runOperatorCode_plain, runItems_operator_cons, step, bind_some_run, runItems_nil]
  cases operator <;> simp only [Token.isArithmeticOp, Bool.false_eq_true] at arithmetic <;>
    simp only [appendArithmeticOperatorCode, one, ne_eq, not_true_eq_false, ↓reduceIte,
      Option.some.injEq, exists_eq_left', arithmeticValue]
  case add => exact plainOp _ _ (execOperatorItem_add rest lhs rhs)
  case sub => exact plainOp _ _ (execOperatorItem_sub rest lhs rhs)
  case mul => exact plainOp _ _ (execOperatorItem_mul rest lhs rhs)
  case exp => exact plainOp _ _ (execOperatorItem_exp rest lhs rhs)
  all_goals
    rw [runOperatorCode_divisionGuard _ _ _ _ _ room]
    by_cases zero : rhs = 0#128
    · simp [zero]
    · cases type.isSigned <;> simp [zero, plainOp]

theorem arithmetic_oneWord_by_zero :
    Token.div.isArithmeticOp = true ∧ IntegerType.uint16.sizeOnStack = 1 ∧
      ([] : List (BitVec 128)).length + 4 ≤ stackSizeLimit ∧
      ∃ code, appendArithmeticOperatorCode .div IntegerType.uint16 0 = some code ∧
        runOperatorCode code [7#128, 0#128] =
          (arithmeticValue .div IntegerType.uint16.isSigned 7#128 0#128).map (· :: []) :=
  ⟨rfl, rfl, by decide, arithmetic_oneWord rfl rfl 0 7#128 0#128 [] (by decide)⟩

/-! ## Bit operators -/

theorem run_twoWordBitwise {instruction : Instruction} {f : BitVec 128 → BitVec 128 → BitVec 128}
    (step : ∀ lhs rhs rest, execOperatorItem (lhs :: rhs :: rest) (.op instruction) =
      some (f lhs rhs :: rest))
    (ah al bh bl : BitVec 128) (rest : List (BitVec 128)) :
    runItems execOperatorItem [.op (.swap 0), .op (.swap 1), .op instruction, .op (.swap 1),
        .op instruction, .op (.swap 0)] (ah :: al :: bh :: bl :: rest) =
      some (f bh ah :: f bl al :: rest) := by
  simp only [runItems_operator_cons, runItems_nil, execOperatorItem_swap, step, bind_some_run,
    Option.map_some, List.getElem?_cons_succ, List.getElem?_cons_zero, List.set_cons_zero,
    List.set_cons_succ, Fin.coe_ofNat_eq_mod, Nat.reduceMod]

theorem appendBitOperatorCode_twoWord {operator : Token} {instruction : Instruction}
    (picked : bitInstruction operator = some instruction) :
    appendBitOperatorCode operator 2 = some [.op (.swap 0), .op (.swap 1), .op instruction,
      .op (.swap 1), .op instruction, .op (.swap 0)] := by
  simp [appendBitOperatorCode, picked]

/-- A bit operator on two-word values is the operator on the 256-bit values. -/
theorem bitOperator_twoWords (operator : Token) (a b : BitVec 256) (rest : List (BitVec 128)) :
    (appendBitOperatorCode operator 2).bind
        (fun code => runItems execOperatorItem code (twoWords a ++ twoWords b ++ rest)) =
      (bitValue operator a b).map (twoWords · ++ rest) := by
  simp only [twoWords_eq_halves, List.cons_append, List.nil_append]
  cases operator
  case bitOr =>
    rw [appendBitOperatorCode_twoWord rfl, bind_some_run,
      run_twoWordBitwise fun lhs rhs rest => execOperatorItem_or rest lhs rhs]
    simp only [bitValue, Option.map_some, BitVec.or_comm]
    rw [high_or, low_or]
  case bitAnd =>
    rw [appendBitOperatorCode_twoWord rfl, bind_some_run,
      run_twoWordBitwise fun lhs rhs rest => execOperatorItem_and rest lhs rhs]
    simp only [bitValue, Option.map_some, BitVec.and_comm]
    rw [high_and, low_and]
  case bitXor =>
    rw [appendBitOperatorCode_twoWord rfl, bind_some_run,
      run_twoWordBitwise fun lhs rhs rest => execOperatorItem_xor rest lhs rhs]
    simp only [bitValue, Option.map_some, BitVec.xor_comm]
    rw [high_xor, low_xor]
  all_goals rfl

/-! ## Unary operators -/

theorem bitNot_twoWords (v : BitVec 256) (rest : List (BitVec 128)) :
    runItems execOperatorItem (unaryOperationCode .bitNot 2) (twoWords v ++ rest) =
      some (twoWords (~~~v) ++ rest) := by
  simp only [twoWords_eq_halves, List.cons_append, List.nil_append, unaryOperationCode, ↓reduceIte,
    runItems_operator_cons, runItems_nil, execOperatorItem_not, execOperatorItem_swap,
    bind_some_run, Option.map_some, List.getElem?_cons_zero, List.set_cons_zero,
    Fin.coe_ofNat_eq_mod, Nat.reduceMod]
  rw [high_not, low_not]

theorem run_negation_twoWords (v : BitVec 256) (rest : List (BitVec 128))
    (room : rest.length + 3 ≤ stackSizeLimit) :
    runItems execOperatorItem (unaryOperationCode .sub 2) (twoWords v ++ rest) =
      some ((0#128 - @high 128 v) :: @low 128 v :: rest) := by
  rw [twoWords_eq_halves]
  unfold stackSizeLimit at room
  simp (disch := (simp only [List.length_cons, stackSizeLimit]; omega)) only [List.cons_append,
    List.nil_append, unaryOperationCode, runItems_operator_cons, runItems_nil,
    execOperatorItem_push, execItem_push, execOperatorItem_sub, bind_some_run]

/-- Unary `-` on an `int256` negates exactly when the low word is zero. -/
theorem negation_twoWords_iff (v : BitVec 256) (rest : List (BitVec 128))
    (room : rest.length + 3 ≤ stackSizeLimit) :
    runItems execOperatorItem (unaryOperationCode .sub 2) (twoWords v ++ rest) =
        some (twoWords (-v) ++ rest) ↔ v.setWidth 128 = 0#128 := by
  rw [run_negation_twoWords v rest room, twoWords_eq_halves (-v)]
  simp only [List.cons_append, List.nil_append, Option.some.injEq, List.cons.injEq, and_true]
  have bound := v.isLt
  simp only [high, low, ← BitVec.toNat_inj, BitVec.toNat_sub, BitVec.toNat_setWidth,
    BitVec.toNat_ushiftRight, BitVec.toNat_neg, BitVec.toNat_ofNat, Nat.shiftRight_eq_div_pow]
  omega

theorem negation_twoWords_at_two_pow_128 :
    ([] : List (BitVec 128)).length + 3 ≤ stackSizeLimit ∧
      (runItems execOperatorItem (unaryOperationCode .sub 2)
          (twoWords (BitVec.twoPow 256 128) ++ []) =
            some (twoWords (-BitVec.twoPow 256 128) ++ []) ↔
        (BitVec.twoPow 256 128).setWidth 128 = 0#128) :=
  ⟨by decide, negation_twoWords_iff (BitVec.twoPow 256 128) [] (by decide)⟩

end AionFastVM.Solc