import AionFastVM.Jit.Instruction
import AionFastVM.Jit.Push
import AionFastVM.Jit.Bitwise
import AionFastVM.Jit.Arith128
import Mathlib.Data.Fin.Basic

/-!
# Straight-line code the code generator emits

Stack words are 128 bits, top first, as the JIT runs them; a value of more than 128 bits takes
two words, the high one on top.
-/

namespace AionFastVM.Solc
open AionFastVM.Jit (Instruction StackOp stackSizeLimit join_halves signextendInstr divInstr
  divInstr_eq expFoldLoop_eq expFuncLoop_eq)

inductive AssemblyItem where
  | push (value : BitVec 128)
  | op (instruction : Instruction)
  deriving DecidableEq, Repr

def zextBool (b : Bool) : BitVec 128 := if b then 1#128 else 0#128

def unaryOp : Instruction → Option (BitVec 128 → BitVec 128)
  | .iszero => some fun top => zextBool (top == 0#128)
  | .not => some fun top => ~~~top
  | _ => none

/-- DIV and EXP are what the JIT computes (`divInstr_agrees`, `exp_agrees`). -/
def binaryOp : Instruction → Option (BitVec 128 → BitVec 128 → BitVec 128)
  | .add => some fun lhs rhs => lhs + rhs
  | .mul => some fun lhs rhs => lhs * rhs
  | .div => some fun lhs rhs => if rhs = 0#128 then 0#128 else lhs / rhs
  | .exp => some fun base exponent => base ^ exponent.toNat
  | .lt => some fun lhs rhs => zextBool (lhs.ult rhs)
  | .gt => some fun lhs rhs => zextBool (rhs.ult lhs)
  | .slt => some fun lhs rhs => zextBool (lhs.slt rhs)
  | .sgt => some fun lhs rhs => zextBool (rhs.slt lhs)
  | .eq => some fun lhs rhs => zextBool (lhs == rhs)
  | .and => some fun lhs rhs => lhs &&& rhs
  | .or => some fun lhs rhs => lhs ||| rhs
  | .xor => some fun lhs rhs => lhs ^^^ rhs
  | .signextend => some fun idx word => signextendInstr idx word
  | _ => none

theorem divInstr_agrees (undefY undefR d n : BitVec 128) :
    divInstr undefY undefR d n = (binaryOp .div).map fun f => some (f d n) := by
  rw [divInstr_eq]
  rfl

theorem exp_agrees (constants : Bool) (base exponent : BitVec 128) :
    some (AionFastVM.Jit.exp constants base exponent) = (binaryOp .exp).map fun f => f base exponent := by
  cases constants <;>
    simp [binaryOp, AionFastVM.Jit.exp, AionFastVM.Jit.expFold, AionFastVM.Jit.expFunc,
      expFoldLoop_eq, expFuncLoop_eq]

/-- `none` where the stack underflows or overflows, and for the instructions left out. -/
def execItem (stack : List (BitVec 128)) : AssemblyItem → Option (List (BitVec 128))
  | .push value => ((StackOp.push value).exec stack).map Prod.snd
  | .op .pop => (StackOp.pop.exec stack).map Prod.snd
  | .op (.dup index) => ((StackOp.dup index.val).exec stack).map Prod.snd
  | .op (.swap index) => ((StackOp.swap (index.val + 1)).exec stack).map Prod.snd
  | .op instruction =>
    match unaryOp instruction, binaryOp instruction, stack with
    | some f, _, top :: rest => some (f top :: rest)
    | none, some f, lhs :: rhs :: rest => some (f lhs rhs :: rest)
    | _, _, _ => none

def run : List AssemblyItem → List (BitVec 128) → Option (List (BitVec 128))
  | [], stack => some stack
  | item :: items, stack => (execItem stack item).bind (run items)

theorem run_append (first second : List AssemblyItem) (stack : List (BitVec 128)) :
    run (first ++ second) stack = (run first stack).bind (run second) := by
  induction first generalizing stack with
  | nil => rfl
  | cons item items ih =>
    simp only [List.cons_append, run, Option.bind_assoc]
    congr 1
    funext next
    exact ih next

section
variable {stack : List (BitVec 128)} (rest : List (BitVec 128))

@[simp] theorem run_nil : run [] stack = some stack := rfl

@[simp] theorem run_cons (item : AssemblyItem) (items : List AssemblyItem) :
    run (item :: items) stack = (execItem stack item).bind (run items) := rfl

theorem execItem_push (value : BitVec 128) (room : stack.length < stackSizeLimit) :
    execItem stack (.push value) = some (value :: stack) := by
  simp [execItem, StackOp.exec, room]

@[simp] theorem execItem_pop (top : BitVec 128) : execItem (top :: rest) (.op .pop) = some rest :=
  rfl

theorem execItem_dup (index : Fin 32) (room : stack.length < stackSizeLimit) :
    execItem stack (.op (.dup index)) = stack[index.val]?.map (· :: stack) := by
  cases get : stack[index.val]? <;> simp [execItem, StackOp.exec, get, room]

@[simp] theorem execItem_swap (index : Fin 32) (top : BitVec 128) :
    execItem (top :: rest) (.op (.swap index)) =
      rest[index.val]?.map fun val => val :: rest.set index.val top := by
  simp only [execItem, StackOp.exec, List.getElem?_cons_succ, List.getElem?_cons_zero]
  cases rest[index.val]? <;> simp

variable (lhs rhs top : BitVec 128)

@[simp] theorem execItem_lt :
    execItem (lhs :: rhs :: rest) (.op .lt) = some (zextBool (lhs.ult rhs) :: rest) := rfl
@[simp] theorem execItem_gt :
    execItem (lhs :: rhs :: rest) (.op .gt) = some (zextBool (rhs.ult lhs) :: rest) := rfl
@[simp] theorem execItem_slt :
    execItem (lhs :: rhs :: rest) (.op .slt) = some (zextBool (lhs.slt rhs) :: rest) := rfl
@[simp] theorem execItem_sgt :
    execItem (lhs :: rhs :: rest) (.op .sgt) = some (zextBool (rhs.slt lhs) :: rest) := rfl
@[simp] theorem execItem_eq :
    execItem (lhs :: rhs :: rest) (.op .eq) = some (zextBool (lhs == rhs) :: rest) := rfl
@[simp] theorem execItem_and :
    execItem (lhs :: rhs :: rest) (.op .and) = some ((lhs &&& rhs) :: rest) := rfl
@[simp] theorem execItem_or :
    execItem (lhs :: rhs :: rest) (.op .or) = some ((lhs ||| rhs) :: rest) := rfl
@[simp] theorem execItem_xor :
    execItem (lhs :: rhs :: rest) (.op .xor) = some ((lhs ^^^ rhs) :: rest) := rfl
@[simp] theorem execItem_add :
    execItem (lhs :: rhs :: rest) (.op .add) = some ((lhs + rhs) :: rest) := rfl
@[simp] theorem execItem_mul :
    execItem (lhs :: rhs :: rest) (.op .mul) = some ((lhs * rhs) :: rest) := rfl
@[simp] theorem execItem_div :
    execItem (lhs :: rhs :: rest) (.op .div) =
      some ((if rhs = 0#128 then 0#128 else lhs / rhs) :: rest) := rfl
@[simp] theorem execItem_exp :
    execItem (lhs :: rhs :: rest) (.op .exp) = some ((lhs ^ rhs.toNat) :: rest) := rfl
@[simp] theorem execItem_signextend :
    execItem (lhs :: rhs :: rest) (.op .signextend) = some (signextendInstr lhs rhs :: rest) := rfl
@[simp] theorem execItem_iszero :
    execItem (top :: rest) (.op .iszero) = some (zextBool (top == 0#128) :: rest) := rfl
@[simp] theorem execItem_not : execItem (top :: rest) (.op .not) = some (~~~top :: rest) := rfl

end

theorem execItem_binary {instruction : Instruction} {f : BitVec 128 → BitVec 128 → BitVec 128}
    (binary : binaryOp instruction = some f) (lhs rhs : BitVec 128) (rest : List (BitVec 128)) :
    execItem (lhs :: rhs :: rest) (.op instruction) = some (f lhs rhs :: rest) := by
  cases instruction <;> simp_all [execItem, unaryOp, binaryOp]

@[simp] theorem zextBool_and_zextBool (x y : Bool) :
    zextBool x &&& zextBool y = zextBool (x && y) := by
  cases x <;> cases y <;> decide

@[simp] theorem zextBool_or_zextBool (x y : Bool) :
    zextBool x ||| zextBool y = zextBool (x || y) := by
  cases x <;> cases y <;> decide

@[simp] theorem zextBool_beq_zero (x : Bool) : (zextBool x == 0#128) = !x := by
  cases x <;> decide

@[simp] theorem zextBool_eq_zero (x : Bool) : zextBool x = 0#128 ↔ x = false := by
  cases x <;> decide

def twoWords (value : BitVec 256) : List (BitVec 128) :=
  [(value >>> 128).setWidth 128, value.setWidth 128]

theorem eq_iff_twoWords (a b : BitVec 256) :
    a = b ↔ (a >>> 128).setWidth 128 = (b >>> 128).setWidth 128 ∧ a.setWidth 128 = b.setWidth 128 := by
  constructor
  · rintro rfl
    exact ⟨rfl, rfl⟩
  · rintro ⟨high, low⟩
    rw [← join_halves a, ← join_halves b, high, low]

end AionFastVM.Solc
