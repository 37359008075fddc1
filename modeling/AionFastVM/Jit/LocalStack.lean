import AionFastVM.Library.Overlay

/-!
# The stack of a basic block (`LocalStack`, BasicBlock.cpp)

The structure is generic in the item type: the compiler stores `llvm::Value*`, and `fetch`
stands for the load it emits, given the offset of the slot from the block's stack pointer.
-/

namespace AionFastVM.Jit
open AionFastVM.Library

def stackSizeLimit : Nat := 1024

structure LocalStack (α : Type) where
  input : List (Option α)
  locals : List α
  globalPops : Nat
  minSize : Int
  maxSize : Int
  /-- The offsets from the stack pointer of the loads `get` emitted, in order. -/
  loads : List Int

namespace LocalStack
variable {α : Type}

def empty : LocalStack α := ⟨[], [], 0, 0, 0, []⟩

def size (ls : LocalStack α) : Int := ls.locals.length - ls.globalPops

def push (ls : LocalStack α) (value : α) : LocalStack α :=
  let ls := { ls with locals := ls.locals ++ [value] }
  { ls with maxSize := max ls.maxSize ls.size }

def growInput (input : List (Option α)) (idx : Nat) : List (Option α) :=
  if idx < input.length then input else input ++ List.replicate (idx + 1 - input.length) none

def get (fetch : Int → α) (ls : LocalStack α) (index : Nat) : α × LocalStack α :=
  if h : index < ls.locals.length then
    (ls.locals[ls.locals.length - 1 - index], ls)
  else
    let idx := index - ls.locals.length + ls.globalPops
    let input := growInput ls.input idx
    match input[idx]?.join with
    | some item => (item, { ls with input })
    | none =>
      let globalIdx : Int := -(idx : Int) - 1
      let item := fetch globalIdx
      (item, { ls with input := input.set idx (some item), minSize := min ls.minSize globalIdx,
                       loads := ls.loads ++ [globalIdx] })

def set (ls : LocalStack α) (index : Nat) (word : α) : LocalStack α :=
  if index < ls.locals.length then
    { ls with locals := ls.locals.set (ls.locals.length - 1 - index) word }
  else
    { ls with input := ls.input.set (index - ls.locals.length + ls.globalPops) (some word) }

def pop (fetch : Int → α) (ls : LocalStack α) : α × LocalStack α :=
  let (item, ls) := ls.get fetch 0
  let ls := if 0 < ls.locals.length then { ls with locals := ls.locals.dropLast }
    else { ls with globalPops := ls.globalPops + 1 }
  (item, { ls with minSize := min ls.minSize ls.size })

theorem pop_fst_of_locals (fetch : Int → α) {ls : LocalStack α} {rest : List α} {value : α}
    (top : ls.locals = rest ++ [value]) : (ls.pop fetch).1 = value := by
  simp [pop, get, top]

theorem locals_pop_of_locals (fetch : Int → α) {ls : LocalStack α} {rest : List α} {value : α}
    (top : ls.locals = rest ++ [value]) : (ls.pop fetch).2.locals = rest := by
  simp [pop, get, top]

def dup (fetch : Int → α) (ls : LocalStack α) (index : Nat) : α × LocalStack α :=
  let (val, ls) := ls.get fetch index
  (val, ls.push val)

def swap (fetch : Int → α) (ls : LocalStack α) (index : Nat) : (α × α) × LocalStack α :=
  let (val, ls) := ls.get fetch index
  let (tos, ls) := ls.get fetch 0
  let ls := ls.set index tos
  ((val, tos), ls.set 0 val)

def finalizeLoop (globalPops : Nat) : Nat → Int → List (Option α) → List α → List (Int × α)
  | 0, _, _, _ => []
  | n + 1, globalIdx, inputIt, localIt =>
    if globalIdx < -(globalPops : Int) then
      match inputIt with
      | some item :: rest => (globalIdx, item) :: finalizeLoop globalPops n (globalIdx + 1) rest localIt
      | none :: rest => finalizeLoop globalPops n (globalIdx + 1) rest localIt
      | [] => []
    else
      match localIt with
      | item :: rest => (globalIdx, item) :: finalizeLoop globalPops n (globalIdx + 1) inputIt rest
      | [] => []

def finalize (ls : LocalStack α) : List (Int × α) :=
  finalizeLoop ls.globalPops (ls.input.length + ls.locals.length - ls.globalPops)
    (-(ls.input.length : Int)) ls.input.reverse ls.locals

def Prepared (h : Nat) (ls : LocalStack α) : Prop :=
  0 ≤ (h : Int) + ls.minSize ∧ (h : Int) + ls.maxSize ≤ stackSizeLimit

instance (h : Nat) (ls : LocalStack α) : Decidable (ls.Prepared h) :=
  inferInstanceAs (Decidable (_ ∧ _))

end LocalStack

inductive StackOp (α : Type) where
  | push (value : α)
  | pop
  | dup (index : Nat)
  | swap (index : Nat)

namespace LocalStack
variable {α : Type}

def apply (fetch : Int → α) (ls : LocalStack α) : StackOp α → List α × LocalStack α
  | .push value => ([], ls.push value)
  | .pop =>
    let (item, ls) := ls.pop fetch
    ([item], ls)
  | .dup index =>
    let (val, ls) := ls.dup fetch index
    ([val], ls)
  | .swap index =>
    let ((val, tos), ls) := ls.swap fetch index
    ([val, tos], ls)

def run (fetch : Int → α) : LocalStack α → List (StackOp α) → List α × LocalStack α
  | ls, [] => ([], ls)
  | ls, op :: ops =>
    let (seen, ls) := ls.apply fetch op
    let (rest, ls) := ls.run fetch ops
    (seen ++ rest, ls)

end LocalStack

namespace LocalStack
variable {α : Type} (fetch : Int → α)

@[simp] theorem length_growInput_ge (input : List (Option α)) (idx : Nat) :
    input.length ≤ (growInput input idx).length := by
  unfold growInput
  split <;> simp

theorem lt_length_growInput (input : List (Option α)) (idx : Nat) :
    idx < (growInput input idx).length := by
  unfold growInput
  split
  · assumption
  · simp only [List.length_append, List.length_replicate]
    omega

theorem length_growInput (input : List (Option α)) (idx : Nat) :
    (growInput input idx).length = max input.length (idx + 1) := by
  unfold growInput
  split
  · omega
  · simp only [List.length_append, List.length_replicate]
    omega

@[simp] theorem overlay_growInput (input : List (Option α)) (idx : Nat) (base : List α) :
    overlay (growInput input idx) base = overlay input base := by
  unfold growInput
  split <;> simp

theorem get_of_local {ls : LocalStack α} {index : Nat} (inLocal : index < ls.locals.length) :
    ls.get fetch index = (ls.locals[ls.locals.length - 1 - index], ls) := by
  simp [get, inLocal]

theorem get_of_cached {ls : LocalStack α} {index : Nat} {item : α}
    (inInput : ¬ index < ls.locals.length)
    (cached : (growInput ls.input (index - ls.locals.length + ls.globalPops))[
      index - ls.locals.length + ls.globalPops]?.join = some item) :
    ls.get fetch index =
      (item, { ls with input := growInput ls.input (index - ls.locals.length + ls.globalPops) }) := by
  simp only [get, inInput, ↓reduceDIte, cached]

theorem get_of_fetched {ls : LocalStack α} {index : Nat}
    (inInput : ¬ index < ls.locals.length)
    (missing : (growInput ls.input (index - ls.locals.length + ls.globalPops))[
      index - ls.locals.length + ls.globalPops]?.join = none) :
    ls.get fetch index =
      (fetch (-((index - ls.locals.length + ls.globalPops : Nat) : Int) - 1),
        { ls with
          input := (growInput ls.input (index - ls.locals.length + ls.globalPops)).set
            (index - ls.locals.length + ls.globalPops)
            (some (fetch (-((index - ls.locals.length + ls.globalPops : Nat) : Int) - 1)))
          minSize := min ls.minSize (-((index - ls.locals.length + ls.globalPops : Nat) : Int) - 1)
          loads := ls.loads ++ [-((index - ls.locals.length + ls.globalPops : Nat) : Int) - 1] }) := by
  simp only [get, inInput, ↓reduceDIte, missing]

@[simp] theorem locals_get (ls : LocalStack α) (index : Nat) :
    (ls.get fetch index).2.locals = ls.locals := by
  unfold get
  split
  · rfl
  · dsimp only
    split <;> rfl

@[simp] theorem globalPops_get (ls : LocalStack α) (index : Nat) :
    (ls.get fetch index).2.globalPops = ls.globalPops := by
  unfold get
  split
  · rfl
  · dsimp only
    split <;> rfl

@[simp] theorem maxSize_get (ls : LocalStack α) (index : Nat) :
    (ls.get fetch index).2.maxSize = ls.maxSize := by
  unfold get
  split
  · rfl
  · dsimp only
    split <;> rfl

theorem minSize_get_le (ls : LocalStack α) (index : Nat) :
    (ls.get fetch index).2.minSize ≤ ls.minSize := by
  unfold get
  split
  · exact Int.le_refl _
  · dsimp only
    split
    · exact Int.le_refl _
    · exact Int.min_le_left _ _

theorem length_input_get_ge (ls : LocalStack α) (index : Nat) :
    ls.input.length ≤ (ls.get fetch index).2.input.length := by
  unfold get
  split
  · exact Nat.le_refl _
  · dsimp only
    split
    · exact length_growInput_ge _ _
    · simp

theorem get_covers (ls : LocalStack α) (index : Nat) :
    index < ls.locals.length ∨
      index - ls.locals.length + ls.globalPops < (ls.get fetch index).2.input.length := by
  unfold get
  split
  · left; assumption
  · right
    dsimp only
    split
    · exact lt_length_growInput _ _
    · simpa using lt_length_growInput _ _

@[simp] theorem locals_set (ls : LocalStack α) (index : Nat) (word : α) :
    (ls.set index word).locals.length = ls.locals.length := by
  unfold set
  split <;> simp

@[simp] theorem globalPops_set (ls : LocalStack α) (index : Nat) (word : α) :
    (ls.set index word).globalPops = ls.globalPops := by
  unfold set
  split <;> rfl

@[simp] theorem minSize_set (ls : LocalStack α) (index : Nat) (word : α) :
    (ls.set index word).minSize = ls.minSize := by
  unfold set
  split <;> rfl

@[simp] theorem maxSize_set (ls : LocalStack α) (index : Nat) (word : α) :
    (ls.set index word).maxSize = ls.maxSize := by
  unfold set
  split <;> rfl

@[simp] theorem loads_set (ls : LocalStack α) (index : Nat) (word : α) :
    (ls.set index word).loads = ls.loads := by
  unfold set
  split <;> rfl

@[simp] theorem length_input_set (ls : LocalStack α) (index : Nat) (word : α) :
    (ls.set index word).input.length = ls.input.length := by
  unfold set
  split <;> simp

theorem dup_eq (ls : LocalStack α) (index : Nat) :
    ls.dup fetch index = ((ls.get fetch index).1, (ls.get fetch index).2.push (ls.get fetch index).1) :=
  rfl

theorem swap_eq (ls : LocalStack α) (index : Nat) :
    ls.swap fetch index =
      (((ls.get fetch index).1, ((ls.get fetch index).2.get fetch 0).1),
        ((((ls.get fetch index).2.get fetch 0).2.set index
          ((ls.get fetch index).2.get fetch 0).1).set 0 (ls.get fetch index).1)) :=
  rfl

theorem apply_pop (ls : LocalStack α) :
    ls.apply fetch .pop = ([(ls.pop fetch).1], (ls.pop fetch).2) := rfl

theorem apply_dup (ls : LocalStack α) (index : Nat) :
    ls.apply fetch (.dup index) = ([(ls.dup fetch index).1], (ls.dup fetch index).2) := rfl

theorem apply_swap (ls : LocalStack α) (index : Nat) :
    ls.apply fetch (.swap index) =
      ([(ls.swap fetch index).1.1, (ls.swap fetch index).1.2], (ls.swap fetch index).2) := rfl

theorem run_cons (ls : LocalStack α) (op : StackOp α) (ops : List (StackOp α)) :
    ls.run fetch (op :: ops) =
      ((ls.apply fetch op).1 ++ ((ls.apply fetch op).2.run fetch ops).1,
        ((ls.apply fetch op).2.run fetch ops).2) := rfl

end LocalStack

namespace StackOp
variable {α : Type}

def exec (stack : List α) : StackOp α → Option (List α × List α)
  | .push value => if stack.length < stackSizeLimit then some ([], value :: stack) else none
  | .pop =>
    match stack with
    | [] => none
    | item :: rest => some ([item], rest)
  | .dup index =>
    match stack[index]? with
    | some val => if stack.length < stackSizeLimit then some ([val], val :: stack) else none
    | none => none
  | .swap index =>
    match stack[index]?, stack[0]? with
    | some val, some tos => some ([val, tos], (stack.set index tos).set 0 val)
    | _, _ => none

def execAll : List α → List (StackOp α) → Option (List α × List α)
  | stack, [] => some ([], stack)
  | stack, op :: ops =>
    match op.exec stack with
    | none => none
    | some (seen, stack) =>
      match execAll stack ops with
      | none => none
      | some (rest, stack) => some (seen ++ rest, stack)

end StackOp

def stackView {α : Type} (slots : Nat → α) (h : Nat) : List α :=
  List.ofFn fun i : Fin h => slots (h - 1 - i)

def loadSlot {α : Type} (slots : Nat → α) (h : Nat) (globalIdx : Int) : α :=
  slots ((h : Int) + globalIdx).toNat

def writeBack {α : Type} (slots : Nat → α) (h : Nat) (stores : List (Int × α)) : Nat → α :=
  stores.foldl (fun mem store => Function.update mem ((h : Int) + store.1).toNat store.2) slots

end AionFastVM.Jit
