import Mathlib.Data.List.Basic

/-!
# Sparse overlays of a list
-/

namespace AionFastVM.Library

variable {α : Type}

def overlay (patch : List (Option α)) (base : List α) : List α :=
  base.mapIdx fun i b => (patch[i]?.join).getD b

@[simp] theorem length_overlay (patch : List (Option α)) (base : List α) :
    (overlay patch base).length = base.length := by
  simp [overlay]

theorem getElem?_overlay (patch : List (Option α)) (base : List α) (i : Nat) :
    (overlay patch base)[i]? = base[i]?.map ((patch[i]?.join).getD ·) := by
  simp [overlay, List.getElem?_mapIdx]

theorem getElem?_overlay_of_some {patch : List (Option α)} {i : Nat} {v : α}
    (hit : patch[i]? = some (some v)) (base : List α) (bound : i < base.length) :
    (overlay patch base)[i]? = some v := by
  rw [getElem?_overlay, hit, List.getElem?_eq_getElem bound]
  rfl

theorem getElem?_overlay_of_none {patch : List (Option α)} {i : Nat}
    (miss : patch[i]?.join = none) (base : List α) :
    (overlay patch base)[i]? = base[i]? := by
  rw [getElem?_overlay, miss]
  cases base[i]? <;> rfl

@[simp] theorem overlay_nil (base : List α) : overlay [] base = base := by
  apply List.ext_getElem?
  intro i
  exact getElem?_overlay_of_none (by simp) base

@[simp] theorem overlay_append_none (patch : List (Option α)) (n : Nat) (base : List α) :
    overlay (patch ++ List.replicate n none) base = overlay patch base := by
  apply List.ext_getElem?
  intro i
  by_cases inPatch : i < patch.length
  · simp [getElem?_overlay, List.getElem?_append_left inPatch]
  · have grown : (patch ++ List.replicate n none)[i]?.join = none := by
      rw [List.getElem?_append_right (by omega), List.getElem?_replicate]
      split <;> rfl
    have old : patch[i]?.join = none := by
      rw [List.getElem?_eq_none (by omega)]
      rfl
    rw [getElem?_overlay_of_none grown, getElem?_overlay_of_none old]

theorem overlay_set (patch : List (Option α)) (base : List α) {i : Nat} (v : α)
    (inPatch : i < patch.length) :
    overlay (patch.set i (some v)) base = (overlay patch base).set i v := by
  apply List.ext_getElem?
  intro j
  by_cases same : i = j
  · subst same
    have written : (patch.set i (some v))[i]? = some (some v) := List.getElem?_set_self inPatch
    by_cases bound : i < base.length
    · rw [getElem?_overlay_of_some written base bound, List.getElem?_set_self (by simpa using bound)]
    · rw [List.getElem?_eq_none (by simpa using bound), List.getElem?_eq_none (by simpa using bound)]
  · simp [getElem?_overlay, same]

theorem overlay_set_cached (patch : List (Option α)) (base : List α) {i : Nat}
    (bound : i < base.length) (miss : patch[i]?.join = none) :
    overlay (patch.set i (some base[i])) base = overlay patch base := by
  by_cases inPatch : i < patch.length
  · rw [overlay_set _ _ _ inPatch]
    apply List.ext_getElem?
    intro j
    by_cases same : i = j
    · subst same
      rw [List.getElem?_set_self (by simpa using bound), getElem?_overlay_of_none miss,
        List.getElem?_eq_getElem bound]
    · simp [same]
  · rw [List.set_eq_of_length_le (by omega)]

end AionFastVM.Library
