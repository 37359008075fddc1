import Mathlib

/-!
# Code with labels and forward jumps

`exec` tracks the label a taken jump seeks; a run that ends still seeking one has jumped past the
end.
-/

namespace AionFastVM.Library

inductive Labelled (α : Type) where
  | item (a : α)
  | label (l : Nat)
  | jump (l : Nat)
  | jumpi (l : Nat)
  deriving DecidableEq, Repr

section
variable {α σ : Type} (step : σ → α → Option σ) (jump : σ → Option σ)
  (test : σ → Option (Bool × σ))

def runItems : List α → σ → Option σ
  | [], s => some s
  | a :: rest, s => (step s a).bind (runItems rest)

def exec : List (Labelled α) → Option Nat → σ → Option (Option Nat × σ)
  | [], seeking, s => some (seeking, s)
  | .label l :: rest, some t, s => exec rest (if l = t then none else some t) s
  | _ :: rest, some t, s => exec rest (some t) s
  | .item a :: rest, none, s => (step s a).bind (exec rest none)
  | .label _ :: rest, none, s => exec rest none s
  | .jump l :: rest, none, s => (jump s).bind (exec rest (some l))
  | .jumpi l :: rest, none, s =>
    (test s).bind fun taken => exec rest (if taken.1 then some l else none) taken.2

@[simp] theorem runItems_nil (s : σ) : runItems step [] s = some s := rfl

@[simp] theorem runItems_cons (a : α) (rest : List α) (s : σ) :
    runItems step (a :: rest) s = (step s a).bind (runItems step rest) := rfl

theorem runItems_append (first second : List α) (s : σ) :
    runItems step (first ++ second) s = (runItems step first s).bind (runItems step second) := by
  induction first generalizing s with
  | nil => rfl
  | cons a rest ih =>
    simp only [List.cons_append, runItems_cons, Option.bind_assoc]
    congr 1
    funext next
    exact ih next

/-- `Option.bind_some` proved by a rewrite: `simp` with an `rfl` lemma makes the kernel unfold
a symbolic run, in time exponential in its length. -/
theorem bind_some_run {β : Type} (s : σ) (f : σ → Option β) : (some s).bind f = f s := by
  rw [Option.bind_some]

theorem exec_append (first second : List (Labelled α)) (seeking : Option Nat) (s : σ) :
    exec step jump test (first ++ second) seeking s =
      (exec step jump test first seeking s).bind fun r => exec step jump test second r.1 r.2 := by
  induction first generalizing seeking s with
  | nil => rfl
  | cons c rest ih =>
    cases seeking with
    | none =>
      cases c with
      | item a =>
        simp only [List.cons_append, exec, Option.bind_assoc]
        congr 1
        funext next
        exact ih none next
      | label l => exact ih none s
      | jump l =>
        simp only [List.cons_append, exec, Option.bind_assoc]
        congr 1
        funext next
        exact ih (some l) next
      | jumpi l =>
        simp only [List.cons_append, exec, Option.bind_assoc]
        congr 1
        funext taken
        exact ih _ taken.2
    | some t =>
      cases c with
      | label l => exact ih _ s
      | item a => exact ih (some t) s
      | jump l => exact ih (some t) s
      | jumpi l => exact ih (some t) s

theorem exec_items (items : List α) (s : σ) :
    exec step jump test (items.map .item) none s = (runItems step items s).map (none, ·) := by
  induction items generalizing s with
  | nil => rfl
  | cons a rest ih =>
    simp only [List.map_cons, exec, runItems_cons]
    cases step s a with
    | none => rfl
    | some next => exact ih next

theorem exec_items_of_seeking (items : List α) (t : Nat) (s : σ) :
    exec step jump test (items.map .item) (some t) s = some (some t, s) := by
  induction items with
  | nil => rfl
  | cons a rest ih => exact ih

theorem exec_seek (items : List α) (t : Nat) (s : σ) :
    exec step jump test (items.map .item ++ [.label t]) (some t) s = some (none, s) := by
  rw [exec_append, exec_items_of_seeking]
  simp [exec]

theorem exec_skipUnless (items : List α) (t : Nat) (s : σ) :
    exec step jump test (.jumpi t :: (items.map .item ++ [.label t])) none s =
      (test s).bind fun taken =>
        if taken.1 then some (none, taken.2) else (runItems step items taken.2).map (none, ·) := by
  simp only [exec]
  congr 1
  funext taken
  obtain ⟨condition, after⟩ := taken
  cases condition with
  | true => exact exec_seek step jump test items t after
  | false =>
    simp only [Bool.false_eq_true, ↓reduceIte]
    rw [exec_append, exec_items]
    cases runItems step items after <;> simp [exec]

theorem exec_branch (otherwise taken : List α) {t e : Nat} (distinct : t ≠ e) (s : σ) :
    exec step jump test (.jumpi t :: (otherwise.map .item ++
        .jump e :: .label t :: (taken.map .item ++ [.label e]))) none s =
      (test s).bind fun r =>
        (if r.1 then runItems step taken r.2
          else (runItems step otherwise r.2).bind jump).map (none, ·) := by
  simp only [exec]
  congr 1
  funext r
  obtain ⟨condition, after⟩ := r
  cases condition with
  | true =>
    simp only [↓reduceIte]
    rw [exec_append, exec_items_of_seeking]
    simp only [Option.bind_some, exec, ↓reduceIte]
    rw [exec_append, exec_items]
    cases runItems step taken after <;> simp [exec]
  | false =>
    simp only [Bool.false_eq_true, ↓reduceIte]
    rw [exec_append, exec_items]
    cases runItems step otherwise after with
    | none => rfl
    | some next =>
      simp only [Option.map_some, Option.bind_some, exec, distinct, ↓reduceIte]
      cases jump next with
      | none => rfl
      | some jumped => exact exec_seek step jump test taken e jumped

end

end AionFastVM.Library
