import AionFastVM.Jit.LocalStack
import Mathlib.Logic.Function.Basic

/-!
# `LocalStack` refines a concrete stack
-/

namespace AionFastVM.Jit
open AionFastVM.Library

variable {α : Type}

theorem length_stackView (slots : Nat → α) (h : Nat) : (stackView slots h).length = h := by
  simp [stackView]

theorem getElem?_stackView (slots : Nat → α) (h i : Nat) :
    (stackView slots h)[i]? = if i < h then some (slots (h - 1 - i)) else none := by
  simp [stackView, List.getElem?_ofFn]

theorem loadSlot_eq (slots : Nat → α) {h idx : Nat} (inside : idx < h) :
    some (loadSlot slots h (-(idx : Int) - 1)) = (stackView slots h)[idx]? := by
  rw [getElem?_stackView, if_pos inside, loadSlot]
  congr 2
  omega

theorem reverse_set_reverse (items : List α) {i : Nat} (inside : i < items.length) (a : α) :
    (items.set (items.length - 1 - i) a).reverse = items.reverse.set i a := by
  apply List.ext_getElem?
  intro j
  by_cases inRange : j < items.length
  · rw [List.getElem?_reverse (by simpa using inRange), List.getElem?_set, List.getElem?_set,
      List.getElem?_reverse inRange]
    simp only [List.length_set, List.length_reverse]
    by_cases same : i = j
    · subst same
      simp [inRange, show items.length - 1 - i < items.length by omega]
    · have differ : items.length - 1 - i ≠ items.length - 1 - j := by omega
      simp [same, differ]
  · rw [List.getElem?_eq_none (by simpa using inRange), List.getElem?_eq_none (by simpa using inRange)]

namespace LocalStack

structure Shaped (ls : LocalStack α) : Prop where
  pops_le_input : ls.globalPops ≤ ls.input.length
  min_le_input : ls.minSize ≤ -(ls.input.length : Int)
  loads_bounded : ∀ g ∈ ls.loads, ls.minSize ≤ g ∧ g < 0
  size_le_max : ls.size ≤ ls.maxSize
  max_nonneg : 0 ≤ ls.maxSize

theorem shaped_empty : (empty : LocalStack α).Shaped :=
  ⟨Nat.le_refl _, Int.le_refl _, by simp [empty], by simp [empty, size], Int.le_refl _⟩

structure Tracks (slots : Nat → α) (h : Nat) (ls : LocalStack α) (stack : List α) : Prop where
  view : stack = ls.locals.reverse ++ (overlay ls.input (stackView slots h)).drop ls.globalPops
  pops_le : ls.globalPops ≤ h

variable {slots : Nat → α} {h : Nat}

theorem Tracks.length_eq {ls : LocalStack α} {stack : List α} (tracks : Tracks slots h ls stack) :
    stack.length = ls.locals.length + (h - ls.globalPops) := by
  rw [tracks.view]
  simp [length_stackView]

theorem Tracks.length_eq_size {ls : LocalStack α} {stack : List α}
    (tracks : Tracks slots h ls stack) : (stack.length : Int) = h + ls.size := by
  have pops := tracks.pops_le
  rw [tracks.length_eq, size]
  omega

theorem Tracks.getElem?_input {ls : LocalStack α} {stack : List α} (tracks : Tracks slots h ls stack)
    {index : Nat} (notLocal : ¬ index < ls.locals.length) :
    stack[index]? =
      (overlay ls.input (stackView slots h))[index - ls.locals.length + ls.globalPops]? := by
  rw [tracks.view, List.getElem?_append_right (by simpa using notLocal), List.getElem?_drop,
    List.length_reverse]
  congr 1
  omega

theorem Tracks.getElem?_local {ls : LocalStack α} {stack : List α} (tracks : Tracks slots h ls stack)
    {index : Nat} (inLocal : index < ls.locals.length) :
    stack[index]? = ls.locals[ls.locals.length - 1 - index]? := by
  rw [tracks.view, List.getElem?_append_left (by simpa using inLocal), List.getElem?_reverse inLocal]

theorem Tracks.get {ls : LocalStack α} {stack : List α} (tracks : Tracks slots h ls stack)
    {index : Nat} (inside : index < stack.length) :
    stack[index]? = some (ls.get (loadSlot slots h) index).1 ∧
      Tracks slots h (ls.get (loadSlot slots h) index).2 stack := by
  by_cases inLocal : index < ls.locals.length
  · rw [get_of_local _ inLocal, tracks.getElem?_local inLocal, List.getElem?_eq_getElem (by omega)]
    exact ⟨rfl, tracks⟩
  · have deep : index - ls.locals.length + ls.globalPops < h := by
      have := tracks.length_eq
      omega
    rw [tracks.getElem?_input inLocal]
    cases lookup : (growInput ls.input (index - ls.locals.length + ls.globalPops))[
        index - ls.locals.length + ls.globalPops]?.join with
    | some item =>
      rw [get_of_cached _ inLocal lookup]
      have hit : (growInput ls.input (index - ls.locals.length + ls.globalPops))[
          index - ls.locals.length + ls.globalPops]? = some (some item) := by
        simpa [Option.join_eq_some_iff] using lookup
      refine ⟨?_, ⟨by simpa using tracks.view, tracks.pops_le⟩⟩
      rw [← overlay_growInput ls.input (index - ls.locals.length + ls.globalPops)]
      exact getElem?_overlay_of_some hit _ (by simpa [length_stackView] using deep)
    | none =>
      rw [get_of_fetched _ inLocal lookup]
      have bound : index - ls.locals.length + ls.globalPops < (stackView slots h).length := by
        simpa [length_stackView] using deep
      have read := loadSlot_eq slots deep
      rw [List.getElem?_eq_getElem bound, Option.some.injEq] at read
      refine ⟨?_, ⟨?_, tracks.pops_le⟩⟩
      · rw [← overlay_growInput ls.input (index - ls.locals.length + ls.globalPops),
          getElem?_overlay_of_none lookup, List.getElem?_eq_getElem bound, read]
      · rw [read, overlay_set_cached _ _ bound lookup, overlay_growInput]
        exact tracks.view

theorem Tracks.set {ls : LocalStack α} {stack : List α} (tracks : Tracks slots h ls stack)
    (index : Nat) (covers : index < ls.locals.length ∨
      index - ls.locals.length + ls.globalPops < ls.input.length) (word : α) :
    Tracks slots h (ls.set index word) (stack.set index word) := by
  refine ⟨?_, by simpa using tracks.pops_le⟩
  by_cases inLocal : index < ls.locals.length
  · simp only [LocalStack.set, inLocal, if_true]
    rw [tracks.view, List.set_append_left _ _ (by simpa using inLocal),
      reverse_set_reverse _ inLocal]
  · have inInput : index - ls.locals.length + ls.globalPops < ls.input.length := by
      omega
    simp only [LocalStack.set, inLocal, if_false]
    rw [overlay_set _ _ _ inInput, List.drop_set, if_neg (by omega), tracks.view,
      List.set_append_right _ _ (by simpa using Nat.le_of_not_lt inLocal), List.length_reverse]
    congr 2
    omega

theorem growInput_of_cached {input : List (Option α)} {idx : Nat} {item : α}
    (cached : (growInput input idx)[idx]?.join = some item) : growInput input idx = input := by
  by_cases inside : idx < input.length
  · simp [growInput, inside]
  · simp only [growInput, inside, if_false] at cached
    rw [List.getElem?_append_right (by omega), List.getElem?_replicate] at cached
    split at cached <;> simp at cached

variable (fetch : Int → α)

theorem Shaped.get {ls : LocalStack α} (shaped : ls.Shaped) (index : Nat) :
    (ls.get fetch index).2.Shaped := by
  by_cases inLocal : index < ls.locals.length
  · rw [get_of_local _ inLocal]
    exact shaped
  · cases lookup : (growInput ls.input (index - ls.locals.length + ls.globalPops))[
        index - ls.locals.length + ls.globalPops]?.join with
    | some item =>
      rw [get_of_cached _ inLocal lookup, growInput_of_cached lookup]
      exact shaped
    | none =>
      rw [get_of_fetched _ inLocal lookup]
      have grown := length_growInput ls.input (index - ls.locals.length + ls.globalPops)
      obtain ⟨pops, minInput, loadsBounded, sizeMax, maxNonneg⟩ := shaped
      dsimp only
      refine ⟨?_, ?_, ?_, sizeMax, maxNonneg⟩
      · simp only [List.length_set]
        omega
      · simp only [List.length_set]
        omega
      · intro g member
        simp only [List.mem_append, List.mem_singleton] at member ⊢
        rcases member with old | new
        · have := loadsBounded g old
          omega
        · omega

theorem Shaped.set {ls : LocalStack α} (shaped : ls.Shaped) (index : Nat) (word : α) :
    (ls.set index word).Shaped := by
  obtain ⟨pops, minInput, loadsBounded, sizeMax, maxNonneg⟩ := shaped
  refine ⟨by simpa using pops, by simpa using minInput, by simpa using loadsBounded, ?_,
    by simpa using maxNonneg⟩
  simpa [size] using sizeMax

theorem Shaped.push {ls : LocalStack α} (shaped : ls.Shaped) (value : α) : (ls.push value).Shaped := by
  obtain ⟨pops, minInput, loadsBounded, sizeMax, maxNonneg⟩ := shaped
  refine ⟨pops, minInput, loadsBounded, ?_, ?_⟩
  · simp only [LocalStack.push, size]
    omega
  · simp only [LocalStack.push]
    omega

theorem Shaped.pop {ls : LocalStack α} (shaped : ls.Shaped) : (ls.pop fetch).2.Shaped := by
  have got := shaped.get fetch 0
  have covers := get_covers fetch ls 0
  have sameLocals := locals_get fetch ls 0
  have samePops := globalPops_get fetch ls 0
  unfold LocalStack.pop
  generalize ls.get fetch 0 = result at got covers sameLocals samePops
  obtain ⟨item, ls1⟩ := result
  dsimp only at got covers sameLocals samePops ⊢
  have sameLength : ls1.locals.length = ls.locals.length := by rw [sameLocals]
  obtain ⟨pops, minInput, loadsBounded, sizeMax, maxNonneg⟩ := got
  split
  · rename_i nonempty
    refine ⟨pops, ?_, fun g member => ?_, ?_, maxNonneg⟩
    · simp only
      omega
    · have := loadsBounded g member
      simp only
      omega
    · simp only [size, List.length_dropLast] at sizeMax ⊢
      omega
  · rename_i empty
    refine ⟨?_, ?_, fun g member => ?_, ?_, maxNonneg⟩
    · simp only
      omega
    · simp only
      omega
    · have := loadsBounded g member
      simp only
      omega
    · simp only [size]
      omega

theorem Shaped.dup {ls : LocalStack α} (shaped : ls.Shaped) (index : Nat) :
    (ls.dup fetch index).2.Shaped := by
  rw [dup_eq]
  exact (shaped.get fetch index).push _

theorem Shaped.swap {ls : LocalStack α} (shaped : ls.Shaped) (index : Nat) :
    (ls.swap fetch index).2.Shaped := by
  rw [swap_eq]
  dsimp only
  exact ((((shaped.get fetch index).get fetch 0).set _ _).set _ _)

theorem Shaped.apply {ls : LocalStack α} (shaped : ls.Shaped) (op : StackOp α) :
    (ls.apply fetch op).2.Shaped := by
  cases op with
  | push value => exact shaped.push value
  | pop => exact shaped.pop fetch
  | dup index => exact shaped.dup fetch index
  | swap index => exact shaped.swap fetch index

theorem Shaped.run {ls : LocalStack α} (shaped : ls.Shaped) (ops : List (StackOp α)) :
    (ls.run fetch ops).2.Shaped := by
  induction ops generalizing ls with
  | nil => exact shaped
  | cons op ops ih =>
    rw [run_cons]
    exact ih (shaped.apply fetch op)

@[simp] theorem size_push (ls : LocalStack α) (value : α) : (ls.push value).size = ls.size + 1 := by
  simp only [LocalStack.push, size, List.length_append, List.length_singleton]
  omega

theorem size_le_maxSize_push (ls : LocalStack α) (value : α) :
    (ls.push value).size ≤ (ls.push value).maxSize := by
  simp only [LocalStack.push, size]
  omega

@[simp] theorem maxSize_push_ge (ls : LocalStack α) (value : α) :
    ls.maxSize ≤ (ls.push value).maxSize := by
  simp only [LocalStack.push]
  omega

@[simp] theorem minSize_push (ls : LocalStack α) (value : α) :
    (ls.push value).minSize = ls.minSize := rfl

@[simp] theorem size_get (ls : LocalStack α) (index : Nat) :
    (ls.get fetch index).2.size = ls.size := by
  simp [size]

@[simp] theorem size_set (ls : LocalStack α) (index : Nat) (word : α) :
    (ls.set index word).size = ls.size := by
  simp [size]

theorem pop_size (ls : LocalStack α) :
    (ls.pop fetch).2.size = ls.size - 1 ∧ (ls.pop fetch).2.minSize ≤ (ls.pop fetch).2.size ∧
      (ls.pop fetch).2.minSize ≤ ls.minSize ∧ (ls.pop fetch).2.maxSize = ls.maxSize := by
  have lower := minSize_get_le fetch ls 0
  have sameSize := size_get fetch ls 0
  have sameMax := maxSize_get fetch ls 0
  unfold LocalStack.pop
  generalize ls.get fetch 0 = result at lower sameSize sameMax
  obtain ⟨item, ls1⟩ := result
  dsimp only at lower sameSize sameMax ⊢
  split
  · rename_i nonempty
    simp only [size, List.length_dropLast] at sameSize ⊢
    omega
  · simp only [size] at sameSize ⊢
    omega

theorem apply_bounds (ls : LocalStack α) (op : StackOp α) :
    (ls.apply fetch op).2.minSize ≤ ls.minSize ∧ ls.maxSize ≤ (ls.apply fetch op).2.maxSize := by
  cases op with
  | push value => exact ⟨Int.le_refl _, maxSize_push_ge ls value⟩
  | pop =>
    have := pop_size fetch ls
    rw [apply_pop]
    dsimp only
    omega
  | dup index =>
    rw [apply_dup, dup_eq]
    have := minSize_get_le fetch ls index
    have := maxSize_push_ge (ls.get fetch index).2 (ls.get fetch index).1
    simp only [minSize_push, maxSize_get] at *
    omega
  | swap index =>
    rw [apply_swap, swap_eq]
    have := minSize_get_le fetch ls index
    have := minSize_get_le fetch (ls.get fetch index).2 0
    simp only [minSize_set, maxSize_set, maxSize_get]
    omega

theorem run_bounds (ls : LocalStack α) (ops : List (StackOp α)) :
    (ls.run fetch ops).2.minSize ≤ ls.minSize ∧ ls.maxSize ≤ (ls.run fetch ops).2.maxSize := by
  induction ops generalizing ls with
  | nil => exact ⟨Int.le_refl _, Int.le_refl _⟩
  | cons op ops ih =>
    rw [run_cons]
    dsimp only
    have step := apply_bounds fetch ls op
    have rest := ih (ls.apply fetch op).2
    omega

theorem Prepared.of_run {h : Nat} {ls : LocalStack α} {ops : List (StackOp α)}
    (prepared : (ls.run fetch ops).2.Prepared h) : ls.Prepared h := by
  have bounds := run_bounds fetch ls ops
  unfold Prepared at prepared ⊢
  omega

variable {slots : Nat → α} {h : Nat}

theorem Tracks.push {ls : LocalStack α} {stack : List α} (tracks : Tracks slots h ls stack)
    (value : α) : Tracks slots h (ls.push value) (value :: stack) := by
  refine ⟨?_, tracks.pops_le⟩
  simp only [LocalStack.push, List.reverse_append, List.reverse_singleton, List.cons_append,
    List.nil_append]
  rw [tracks.view]

theorem Tracks.pop {ls : LocalStack α} {item : α} {rest : List α}
    (tracks : Tracks slots h ls (item :: rest)) :
    (ls.pop (loadSlot slots h)).1 = item ∧ Tracks slots h (ls.pop (loadSlot slots h)).2 rest := by
  obtain ⟨value, got⟩ := tracks.get (show 0 < (item :: rest).length by simp)
  have sameLocals := locals_get (loadSlot slots h) ls 0
  unfold LocalStack.pop
  generalize ls.get (loadSlot slots h) 0 = result at value got sameLocals
  obtain ⟨first, ls1⟩ := result
  dsimp only at value got sameLocals ⊢
  simp only [List.getElem?_cons_zero, Option.some.injEq] at value
  refine ⟨value.symm, ?_⟩
  have view := got.view
  split
  · rename_i nonempty
    refine ⟨?_, got.pops_le⟩
    have notNil : ls1.locals.reverse ≠ [] := by
      simpa [List.reverse_eq_nil_iff, ← List.length_pos_iff] using nonempty
    have tails := congrArg List.tail view
    rw [List.tail_cons, List.tail_append_of_ne_nil notNil, List.tail_reverse] at tails
    exact tails
  · rename_i empty
    have noLocals : ls1.locals = [] := List.eq_nil_of_length_eq_zero (by omega)
    rw [noLocals, List.reverse_nil, List.nil_append] at view
    have deep : ls1.globalPops < h := by
      have := congrArg List.length view
      simp only [List.length_cons, List.length_drop, length_overlay, length_stackView] at this
      omega
    refine ⟨?_, deep⟩
    have tails := congrArg List.tail view
    rw [List.tail_cons, List.tail_drop] at tails
    simpa [noLocals] using tails

theorem Tracks.dup {ls : LocalStack α} {stack : List α} (tracks : Tracks slots h ls stack)
    {index : Nat} {val : α} (found : stack[index]? = some val) :
    (ls.dup (loadSlot slots h) index).1 = val ∧
      Tracks slots h (ls.dup (loadSlot slots h) index).2 (val :: stack) := by
  have inside : index < stack.length := by
    by_contra outside
    rw [List.getElem?_eq_none (by omega)] at found
    contradiction
  obtain ⟨value, got⟩ := tracks.get inside
  rw [found, Option.some.injEq] at value
  rw [dup_eq, ← value]
  exact ⟨rfl, got.push _⟩

theorem Tracks.swap {ls : LocalStack α} {stack : List α} (tracks : Tracks slots h ls stack)
    {index : Nat} {val tos : α} (found : stack[index]? = some val) (top : stack[0]? = some tos) :
    (ls.swap (loadSlot slots h) index).1 = (val, tos) ∧
      Tracks slots h (ls.swap (loadSlot slots h) index).2 ((stack.set index tos).set 0 val) := by
  have inside : index < stack.length := by
    by_contra outside
    rw [List.getElem?_eq_none (by omega)] at found
    contradiction
  have nonempty : 0 < stack.length := by
    by_contra empty
    rw [List.getElem?_eq_none (by omega)] at top
    contradiction
  obtain ⟨value, got⟩ := tracks.get inside
  obtain ⟨topValue, got2⟩ := got.get nonempty
  rw [found, Option.some.injEq] at value
  rw [top, Option.some.injEq] at topValue
  have covers := get_covers (loadSlot slots h) ls index
  have grows := length_input_get_ge (loadSlot slots h) (ls.get (loadSlot slots h) index).2 0
  have coversTop := get_covers (loadSlot slots h) (ls.get (loadSlot slots h) index).2 0
  simp only [locals_get, globalPops_get] at covers coversTop grows
  rw [swap_eq, ← value, ← topValue]
  dsimp only
  refine ⟨rfl, ?_⟩
  have written := got2.set index (by simp only [locals_get, globalPops_get]; omega) tos
  refine written.set 0 ?_ val
  simp only [locals_set, globalPops_set, globalPops_get, locals_get, length_input_set]
  omega

theorem Tracks.apply {ls : LocalStack α} {stack : List α} (tracks : Tracks slots h ls stack)
    {op : StackOp α} {seen stack' : List α} (exec : op.exec stack = some (seen, stack')) :
    (ls.apply (loadSlot slots h) op).1 = seen ∧
      Tracks slots h (ls.apply (loadSlot slots h) op).2 stack' := by
  cases op with
  | push value =>
    simp only [StackOp.exec] at exec
    split at exec
    · cases exec
      exact ⟨rfl, tracks.push value⟩
    · contradiction
  | pop =>
    cases stack with
    | nil => simp [StackOp.exec] at exec
    | cons item rest =>
      simp only [StackOp.exec, Option.some.injEq, Prod.mk.injEq] at exec
      obtain ⟨rfl, rfl⟩ := exec
      obtain ⟨value, next⟩ := tracks.pop
      rw [apply_pop, value]
      exact ⟨rfl, next⟩
  | dup index =>
    simp only [StackOp.exec] at exec
    split at exec
    · rename_i val found
      split at exec
      · cases exec
        obtain ⟨value, next⟩ := tracks.dup found
        rw [apply_dup, value]
        exact ⟨rfl, next⟩
      · contradiction
    · contradiction
  | swap index =>
    simp only [StackOp.exec] at exec
    split at exec
    · rename_i val tos found top
      cases exec
      obtain ⟨value, next⟩ := tracks.swap found top
      rw [apply_swap, value]
      dsimp only
      exact ⟨rfl, next⟩
    · contradiction

theorem Tracks.get_deep (fetch : Int → α) {ls : LocalStack α} {stack : List α}
    (tracks : Tracks slots h ls stack) (shaped : ls.Shaped) {index : Nat}
    (outside : stack.length ≤ index) : (ls.get fetch index).2.minSize < -(h : Int) := by
  have length := tracks.length_eq
  have pops := tracks.pops_le
  have notLocal : ¬ index < ls.locals.length := by omega
  cases lookup : (growInput ls.input (index - ls.locals.length + ls.globalPops))[
      index - ls.locals.length + ls.globalPops]?.join with
  | some item =>
    rw [get_of_cached _ notLocal lookup]
    have cached := growInput_of_cached lookup
    have inInput : index - ls.locals.length + ls.globalPops < ls.input.length := by
      have := lt_length_growInput ls.input (index - ls.locals.length + ls.globalPops)
      rwa [cached] at this
    have := shaped.min_le_input
    dsimp only
    omega
  | none =>
    rw [get_of_fetched _ notLocal lookup]
    dsimp only
    omega

theorem Tracks.apply_fails (fetch : Int → α) {ls : LocalStack α} {stack : List α}
    (tracks : Tracks slots h ls stack) (shaped : ls.Shaped) {op : StackOp α}
    (exec : op.exec stack = none) : ¬ (ls.apply fetch op).2.Prepared h := by
  have length := tracks.length_eq_size
  unfold Prepared
  cases op with
  | push value =>
    simp only [StackOp.exec] at exec
    split at exec
    · contradiction
    · rename_i full
      have := size_le_maxSize_push ls value
      simp only [size_push] at this
      simp only [LocalStack.apply, stackSizeLimit] at full ⊢
      omega
  | pop =>
    cases stack with
    | cons item rest => simp [StackOp.exec] at exec
    | nil =>
      have := pop_size fetch ls
      rw [apply_pop]
      simp only [List.length_nil] at length
      dsimp only
      omega
  | dup index =>
    rw [apply_dup, dup_eq]
    simp only [StackOp.exec] at exec
    split at exec
    · rename_i val found
      split at exec
      · contradiction
      · rename_i full
        have := size_le_maxSize_push (ls.get fetch index).2 (ls.get fetch index).1
        simp only [size_push, size_get] at this
        simp only [stackSizeLimit] at full ⊢
        omega
    · rename_i missing
      have outside : stack.length ≤ index := by
        by_contra inside
        rw [List.getElem?_eq_getElem (by omega)] at missing
        simp at missing
      have := tracks.get_deep fetch shaped outside
      simp only [minSize_push]
      omega
  | swap index =>
    rw [apply_swap, swap_eq]
    have outside : stack.length ≤ index := by
      simp only [StackOp.exec] at exec
      split at exec
      · contradiction
      · rename_i missing
        by_contra inside
        rw [List.getElem?_eq_getElem (by omega), List.getElem?_eq_getElem (by omega)] at missing
        simp at missing
    have deep := tracks.get_deep fetch shaped outside
    have := minSize_get_le fetch (ls.get fetch index).2 0
    simp only [minSize_set]
    omega

/-! ## Whole sequences -/

theorem Tracks.run {ls : LocalStack α} {stack : List α} (tracks : Tracks slots h ls stack)
    {ops : List (StackOp α)} {seen stack' : List α}
    (exec : StackOp.execAll stack ops = some (seen, stack')) :
    (ls.run (loadSlot slots h) ops).1 = seen ∧
      Tracks slots h (ls.run (loadSlot slots h) ops).2 stack' := by
  induction ops generalizing ls stack seen with
  | nil =>
    simp only [StackOp.execAll, Option.some.injEq, Prod.mk.injEq] at exec
    obtain ⟨rfl, rfl⟩ := exec
    exact ⟨rfl, tracks⟩
  | cons op ops ih =>
    simp only [StackOp.execAll] at exec
    split at exec
    · contradiction
    · rename_i first stack1 step
      split at exec
      · contradiction
      · rename_i rest stack2 later
        simp only [Option.some.injEq, Prod.mk.injEq] at exec
        obtain ⟨rfl, rfl⟩ := exec
        obtain ⟨firstSeen, next⟩ := tracks.apply step
        obtain ⟨restSeen, final⟩ := ih next later
        rw [run_cons]
        exact ⟨by rw [firstSeen, restSeen], final⟩

theorem Tracks.run_fails {ls : LocalStack α} {stack : List α}
    (tracks : Tracks slots h ls stack) (shaped : ls.Shaped) {ops : List (StackOp α)}
    (exec : StackOp.execAll stack ops = none) : ¬ (ls.run (loadSlot slots h) ops).2.Prepared h := by
  induction ops generalizing ls stack with
  | nil => simp [StackOp.execAll] at exec
  | cons op ops ih =>
    rw [run_cons]
    intro prepared
    have earlier := Prepared.of_run _ prepared
    simp only [StackOp.execAll] at exec
    split at exec
    · rename_i step
      exact tracks.apply_fails _ shaped step earlier
    · rename_i first stack1 step
      split at exec
      · rename_i later
        exact ih (tracks.apply step).2 (shaped.apply _ op) later prepared
      · contradiction

end LocalStack

/-! ## `finalize` writes the concrete stack back -/

def inputStores (start : Int) : List (Option α) → List (Int × α)
  | [] => []
  | some v :: items => (start, v) :: inputStores (start + 1) items
  | none :: items => inputStores (start + 1) items

theorem mem_inputStores {start : Int} {items : List (Option α)} {g : Int} {v : α} :
    (g, v) ∈ inputStores start items ↔ ∃ j : Nat, items[j]? = some (some v) ∧ g = start + j := by
  induction items generalizing start with
  | nil => simp [inputStores]
  | cons item items ih =>
    cases item with
    | none =>
      simp only [inputStores, ih]
      constructor
      · rintro ⟨j, found, rfl⟩
        exact ⟨j + 1, by simpa using found, by omega⟩
      · rintro ⟨j, found, rfl⟩
        cases j with
        | zero => simp at found
        | succ j => exact ⟨j, by simpa using found, by omega⟩
    | some w =>
      simp only [inputStores, List.mem_cons, Prod.mk.injEq, ih]
      constructor
      · rintro (⟨rfl, rfl⟩ | ⟨j, found, rfl⟩)
        · exact ⟨0, by simp, by omega⟩
        · exact ⟨j + 1, by simpa using found, by omega⟩
      · rintro ⟨j, found, rfl⟩
        cases j with
        | zero =>
          simp only [List.getElem?_cons_zero, Option.some.injEq] at found
          exact Or.inl ⟨by omega, found.symm⟩
        | succ j => exact Or.inr ⟨j, by simpa using found, by omega⟩

theorem inputStores_bounds {start : Int} {items : List (Option α)} {store : Int × α}
    (member : store ∈ inputStores start items) :
    start ≤ store.1 ∧ store.1 < start + items.length := by
  obtain ⟨g, v⟩ := store
  obtain ⟨j, found, rfl⟩ := mem_inputStores.mp member
  have : j < items.length := by
    by_contra outside
    rw [List.getElem?_eq_none (by omega)] at found
    contradiction
  dsimp only
  omega

theorem inputStores_sorted (start : Int) (items : List (Option α)) :
    (inputStores start items).Pairwise (fun a b => a.1 < b.1) := by
  induction items generalizing start with
  | nil => simp [inputStores]
  | cons item items ih =>
    cases item with
    | none => exact ih (start + 1)
    | some v =>
      refine List.Pairwise.cons (fun later member => ?_) (ih (start + 1))
      have := (inputStores_bounds member).1
      dsimp only
      omega

namespace LocalStack

theorem finalizeLoop_locals (globalPops : Nat) (items : List α) (inputIt : List (Option α))
    {globalIdx : Int} (upper : -(globalPops : Int) ≤ globalIdx) :
    finalizeLoop globalPops items.length globalIdx inputIt items =
      items.mapIdx fun j v => (globalIdx + j, v) := by
  induction items generalizing globalIdx with
  | nil => simp [finalizeLoop]
  | cons item items ih =>
    simp only [List.length_cons, finalizeLoop, if_neg (Int.not_lt.mpr upper), List.mapIdx_cons]
    rw [ih (by omega)]
    congr 1
    · simp
    · congr 1
      funext j v
      congr 1
      omega

theorem finalizeLoop_inputs (globalPops : Nat) (items : List α) (count : Nat) :
    ∀ (inputIt : List (Option α)) (globalIdx : Int), count ≤ inputIt.length →
      globalIdx = -(globalPops : Int) - count →
      finalizeLoop globalPops (count + items.length) globalIdx inputIt items =
        inputStores globalIdx (inputIt.take count) ++
          finalizeLoop globalPops items.length (-(globalPops : Int)) (inputIt.drop count) items := by
  induction count with
  | zero =>
    intro inputIt globalIdx _ start
    simp [start, inputStores]
  | succ count ih =>
    intro inputIt globalIdx enough start
    cases inputIt with
    | nil => simp at enough
    | cons item rest =>
      simp only [List.length_cons] at enough
      rw [show count + 1 + items.length = (count + items.length) + 1 by omega]
      simp only [finalizeLoop, if_pos (show globalIdx < -(globalPops : Int) by omega),
        List.take_succ_cons, List.drop_succ_cons]
      cases item with
      | none =>
        dsimp only
        rw [ih rest (globalIdx + 1) (by omega) (by omega)]
        rfl
      | some v =>
        dsimp only
        rw [ih rest (globalIdx + 1) (by omega) (by omega)]
        rfl

theorem finalize_eq {ls : LocalStack α} (shaped : ls.Shaped) :
    ls.finalize =
      inputStores (-(ls.input.length : Int)) (ls.input.reverse.take (ls.input.length - ls.globalPops)) ++
        ls.locals.mapIdx fun j v => (-(ls.globalPops : Int) + j, v) := by
  have pops := shaped.pops_le_input
  unfold finalize
  rw [show ls.input.length + ls.locals.length - ls.globalPops =
      (ls.input.length - ls.globalPops) + ls.locals.length by omega,
    finalizeLoop_inputs _ _ _ _ _ (by simp) (by omega), finalizeLoop_locals _ _ _ (Int.le_refl _)]

theorem finalize_bounds {ls : LocalStack α} (shaped : ls.Shaped) {store : Int × α}
    (member : store ∈ ls.finalize) :
    -(ls.input.length : Int) ≤ store.1 ∧ store.1 < ls.size := by
  have pops := shaped.pops_le_input
  rw [finalize_eq shaped, List.mem_append] at member
  rcases member with input | inLocals
  · have := inputStores_bounds input
    simp only [List.length_take, List.length_reverse] at this
    unfold size
    omega
  · obtain ⟨j, bound, rfl⟩ := List.mem_mapIdx.mp inLocals
    unfold size
    dsimp only
    omega

theorem finalize_sorted {ls : LocalStack α} (shaped : ls.Shaped) :
    ls.finalize.Pairwise (fun a b => a.1 < b.1) := by
  have pops := shaped.pops_le_input
  rw [finalize_eq shaped, List.pairwise_append]
  refine ⟨inputStores_sorted _ _, ?_, ?_⟩
  · rw [List.pairwise_iff_getElem]
    intro i j _ _ earlier
    simp only [List.getElem_mapIdx]
    omega
  · intro a input b inLocals
    have := inputStores_bounds input
    simp only [List.length_take, List.length_reverse] at this
    obtain ⟨j, bound, rfl⟩ := List.mem_mapIdx.mp inLocals
    dsimp only
    omega

end LocalStack

theorem writeBack_cons (slots : Nat → α) (h : Nat) (store : Int × α) (stores : List (Int × α)) :
    writeBack slots h (store :: stores) =
      writeBack (Function.update slots ((h : Int) + store.1).toNat store.2) h stores := rfl

theorem writeBack_of_not_mem {slots : Nat → α} {h k : Nat} {stores : List (Int × α)}
    (untouched : ∀ store ∈ stores, ((h : Int) + store.1).toNat ≠ k) :
    writeBack slots h stores k = slots k := by
  induction stores generalizing slots with
  | nil => rfl
  | cons store stores ih =>
    rw [writeBack_cons, ih (fun other member => untouched other (List.mem_cons_of_mem _ member))]
    exact Function.update_of_ne (untouched store List.mem_cons_self).symm _ _

theorem writeBack_of_mem (slots : Nat → α) {h : Nat} {stores : List (Int × α)}
    (sorted : stores.Pairwise (fun a b => a.1 < b.1))
    (above : ∀ store ∈ stores, -(h : Int) ≤ store.1) {store : Int × α} (member : store ∈ stores) :
    writeBack slots h stores ((h : Int) + store.1).toNat = store.2 := by
  induction stores generalizing slots with
  | nil => simp at member
  | cons first stores ih =>
    rw [writeBack_cons]
    rcases List.mem_cons.mp member with same | later
    · subst same
      rw [writeBack_of_not_mem, Function.update_self]
      intro other otherMember
      have greater := List.rel_of_pairwise_cons sorted otherMember
      have low := above store List.mem_cons_self
      omega
    · exact ih _ (List.pairwise_cons.mp sorted).2
        (fun other otherMember => above other (List.mem_cons_of_mem _ otherMember)) later

namespace LocalStack

theorem getElem?_inputWindow (input : List (Option α)) {globalPops j : Nat}
    (inside : j < input.length - globalPops) :
    (input.reverse.take (input.length - globalPops))[j]? = input[input.length - 1 - j]? := by
  rw [List.getElem?_take_of_lt inside, List.getElem?_reverse (by omega)]

variable {slots : Nat → α} {h : Nat}

theorem Tracks.finalize {ls : LocalStack α} {stack : List α} (tracks : Tracks slots h ls stack)
    (shaped : ls.Shaped) (covered : ls.input.length ≤ h) :
    stackView (writeBack slots h ls.finalize) stack.length = stack := by
  have length := tracks.length_eq
  have pops := tracks.pops_le
  have popsInput := shaped.pops_le_input
  have above : ∀ store ∈ ls.finalize, -(h : Int) ≤ store.1 := by
    intro store member
    have := (finalize_bounds shaped member).1
    omega
  apply List.ext_getElem?
  intro i
  rw [getElem?_stackView]
  split
  · rename_i inside
    by_cases inLocal : i < ls.locals.length
    · have member : (-(ls.globalPops : Int) + ((ls.locals.length - 1 - i : Nat) : Int),
          ls.locals[ls.locals.length - 1 - i]) ∈ ls.finalize := by
        rw [finalize_eq shaped]
        exact List.mem_append_right _ (List.mem_mapIdx.mpr ⟨_, by omega, rfl⟩)
      have stored := writeBack_of_mem slots (finalize_sorted shaped) above member
      rw [show ((h : Int) + (-(ls.globalPops : Int) + ((ls.locals.length - 1 - i : Nat) : Int))).toNat =
        stack.length - 1 - i by omega] at stored
      rw [stored, tracks.getElem?_local inLocal, List.getElem?_eq_getElem (by omega)]
    · rw [tracks.getElem?_input inLocal]
      have deep : i - ls.locals.length + ls.globalPops < h := by omega
      cases lookup : ls.input[i - ls.locals.length + ls.globalPops]?.join with
      | none =>
        rw [getElem?_overlay_of_none lookup, getElem?_stackView, if_pos deep, writeBack_of_not_mem]
        · congr 2
          omega
        · intro store member
          obtain ⟨g, v⟩ := store
          rw [finalize_eq shaped, List.mem_append] at member
          rcases member with input | inLocals
          · obtain ⟨j, found, rfl⟩ := mem_inputStores.mp input
            intro sameSlot
            have window : j < ls.input.length - ls.globalPops := by
              by_contra outside
              rw [List.getElem?_eq_none (by simp; omega)] at found
              contradiction
            rw [getElem?_inputWindow _ window,
              show ls.input.length - 1 - j = i - ls.locals.length + ls.globalPops by omega] at found
            simp [found] at lookup
          · obtain ⟨j, bound, same⟩ := List.mem_mapIdx.mp inLocals
            simp only [Prod.mk.injEq] at same
            omega
      | some v =>
        have hit : ls.input[i - ls.locals.length + ls.globalPops]? = some (some v) := by
          simpa [Option.join_eq_some_iff] using lookup
        have inInput : i - ls.locals.length + ls.globalPops < ls.input.length := by
          by_contra outside
          rw [List.getElem?_eq_none (by omega)] at hit
          contradiction
        have member : (-((i - ls.locals.length + ls.globalPops : Nat) : Int) - 1, v) ∈ ls.finalize := by
          rw [finalize_eq shaped]
          apply List.mem_append_left
          refine mem_inputStores.mpr ⟨ls.input.length - 1 - (i - ls.locals.length + ls.globalPops), ?_, ?_⟩
          · rw [getElem?_inputWindow _ (by omega),
              show ls.input.length - 1 - (ls.input.length - 1 - (i - ls.locals.length + ls.globalPops)) =
                i - ls.locals.length + ls.globalPops by omega, hit]
          · omega
        have stored := writeBack_of_mem slots (finalize_sorted shaped) above member
        rw [show ((h : Int) + (-((i - ls.locals.length + ls.globalPops : Nat) : Int) - 1)).toNat =
          stack.length - 1 - i by omega] at stored
        rw [stored, getElem?_overlay_of_some hit _ (by simpa [length_stackView] using deep)]
  · rename_i outside
    rw [List.getElem?_eq_none (by omega)]

end LocalStack

/-! ## A whole block -/

theorem tracks_empty (slots : Nat → α) (h : Nat) :
    LocalStack.Tracks slots h LocalStack.empty (stackView slots h) :=
  ⟨by simp [LocalStack.empty], Nat.zero_le h⟩

/-- The operations one block records on a fresh `LocalStack` refine the concrete stack. -/
theorem localStack_refines (slots : Nat → α) (h : Nat) (ops : List (StackOp α)) :
    let result := LocalStack.empty.run (loadSlot slots h) ops
    (result.2.Prepared h →
      ∃ final, StackOp.execAll (stackView slots h) ops = some (result.1, final) ∧
        (final.length : Int) = h + result.2.size ∧
        stackView (writeBack slots h result.2.finalize) final.length = final ∧
        (∀ g ∈ result.2.loads, 0 ≤ (h : Int) + g ∧ (h : Int) + g < stackSizeLimit) ∧
        (∀ store ∈ result.2.finalize,
          0 ≤ (h : Int) + store.1 ∧ (h : Int) + store.1 < stackSizeLimit)) ∧
    (StackOp.execAll (stackView slots h) ops = none → ¬ result.2.Prepared h) := by
  dsimp only
  have start := tracks_empty slots h
  refine ⟨fun prepared => ?_, fun exec => start.run_fails LocalStack.shaped_empty exec⟩
  have shaped := LocalStack.Shaped.run (loadSlot slots h) LocalStack.shaped_empty ops
  cases exec : StackOp.execAll (stackView slots h) ops with
  | none => exact absurd prepared (start.run_fails LocalStack.shaped_empty exec)
  | some outcome =>
    obtain ⟨seen, final⟩ := outcome
    obtain ⟨same, tracks⟩ := start.run exec
    have depth := shaped.min_le_input
    have height := shaped.max_nonneg
    unfold LocalStack.Prepared stackSizeLimit at prepared
    refine ⟨final, by rw [same], tracks.length_eq_size, tracks.finalize shaped (by omega), ?_, ?_⟩
    · intro g member
      have loaded := shaped.loads_bounded g member
      simp only [stackSizeLimit]
      omega
    · intro store member
      have stored := LocalStack.finalize_bounds shaped member
      have size := shaped.size_le_max
      simp only [stackSizeLimit]
      omega

theorem localStack_refines_two_deep :
    (LocalStack.empty.run (loadSlot (fun k => k) 2) [.pop, .dup 0, .swap 1]).2.Prepared 2 ∧
      ((LocalStack.empty.run (loadSlot (fun k => k) 2) [.pop, .dup 0, .swap 1]).2.Prepared 2 →
        ∃ final, StackOp.execAll (stackView (fun k => k) 2) [.pop, .dup 0, .swap 1] =
          some ((LocalStack.empty.run (loadSlot (fun k => k) 2) [.pop, .dup 0, .swap 1]).1, final) ∧
          (final.length : Int) = 2 + (LocalStack.empty.run (loadSlot (fun k => k) 2)
            [.pop, .dup 0, .swap 1]).2.size ∧
          stackView (writeBack (fun k => k) 2 (LocalStack.empty.run (loadSlot (fun k => k) 2)
            [.pop, .dup 0, .swap 1]).2.finalize) final.length = final ∧
          (∀ g ∈ (LocalStack.empty.run (loadSlot (fun k => k) 2) [.pop, .dup 0, .swap 1]).2.loads,
            0 ≤ (2 : Int) + g ∧ (2 : Int) + g < stackSizeLimit) ∧
          (∀ store ∈ (LocalStack.empty.run (loadSlot (fun k => k) 2) [.pop, .dup 0, .swap 1]).2.finalize,
            0 ≤ (2 : Int) + store.1 ∧ (2 : Int) + store.1 < stackSizeLimit)) :=
  ⟨by decide, (localStack_refines (fun k => k) 2 [.pop, .dup 0, .swap 1]).1⟩

end AionFastVM.Jit
