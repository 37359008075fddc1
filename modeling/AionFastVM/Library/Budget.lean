import Mathlib

/-!
# Paying costs from a budget
-/

namespace AionFastVM.Library

def spend (budget : Int) : List Int → Option Int
  | [] => some budget
  | cost :: costs => if budget - cost < 0 then none else spend (budget - cost) costs

@[simp] theorem spend_nil (budget : Int) : spend budget [] = some budget := rfl

theorem spend_cons (budget cost : Int) (costs : List Int) :
    spend budget (cost :: costs) =
      if budget - cost < 0 then none else spend (budget - cost) costs := rfl

theorem spend_zero {budget : Int} (funded : 0 ≤ budget) : spend budget [0] = some budget := by
  rw [spend_cons, if_neg (by omega), Int.sub_zero, spend_nil]

theorem spend_append (budget : Int) (first second : List Int) :
    spend budget (first ++ second) = (spend budget first).bind (spend · second) := by
  induction first generalizing budget with
  | nil => rfl
  | cons cost costs ih =>
    rw [List.cons_append, spend_cons, spend_cons]
    split
    · rfl
    · exact ih _

theorem spend_nonneg {budget left : Int} {costs : List Int} (funded : 0 ≤ budget)
    (paid : spend budget costs = some left) : 0 ≤ left := by
  induction costs generalizing budget with
  | nil =>
    simp only [spend_nil, Option.some.injEq] at paid
    omega
  | cons cost costs ih =>
    rw [spend_cons] at paid
    split at paid
    · contradiction
    · exact ih (by omega) paid

theorem spend_le {budget left : Int} {costs : List Int} (nonneg : ∀ cost ∈ costs, 0 ≤ cost)
    (paid : spend budget costs = some left) : left ≤ budget := by
  induction costs generalizing budget with
  | nil =>
    simp only [spend_nil, Option.some.injEq] at paid
    omega
  | cons cost costs ih =>
    rw [spend_cons] at paid
    split at paid
    · contradiction
    · have costNonneg := nonneg cost List.mem_cons_self
      have rest := ih (fun other member => nonneg other (List.mem_cons_of_mem _ member)) paid
      omega

theorem spend_eq_of_nonneg {budget : Int} {costs : List Int} (funded : 0 ≤ budget)
    (nonneg : ∀ cost ∈ costs, 0 ≤ cost) :
    spend budget costs = if costs.sum ≤ budget then some (budget - costs.sum) else none := by
  induction costs generalizing budget with
  | nil => simp [funded]
  | cons cost costs ih =>
    have first := nonneg cost List.mem_cons_self
    have rest : ∀ c ∈ costs, 0 ≤ c := fun c member => nonneg c (List.mem_cons_of_mem _ member)
    have restSum : 0 ≤ costs.sum := List.sum_nonneg rest
    rw [spend_cons, List.sum_cons]
    by_cases short : budget - cost < 0
    · rw [if_pos short, if_neg (by omega)]
    · rw [if_neg short, ih (by omega) rest]
      by_cases covered : costs.sum ≤ budget - cost
      · rw [if_pos covered, if_pos (by omega), Int.sub_sub]
      · rw [if_neg covered, if_neg (by omega)]

theorem spend_congr_sum {budget : Int} {costs costs' : List Int} (funded : 0 ≤ budget)
    (nonneg : ∀ cost ∈ costs, 0 ≤ cost) (nonneg' : ∀ cost ∈ costs', 0 ≤ cost)
    (sameSum : costs.sum = costs'.sum) : spend budget costs = spend budget costs' := by
  rw [spend_eq_of_nonneg funded nonneg, spend_eq_of_nonneg funded nonneg', sameSum]

theorem spend_regroup {budget first later : Int} {between after : List Int} (funded : 0 ≤ budget)
    (firstNonneg : 0 ≤ first) (laterNonneg : 0 ≤ later)
    (betweenNonneg : ∀ cost ∈ between, 0 ≤ cost) (afterNonneg : ∀ cost ∈ after, 0 ≤ cost) :
    spend budget ((first + later) :: (between ++ after)) =
      (spend budget (first :: between)).bind (spend · (later :: after)) := by
  rw [← spend_append]
  apply spend_congr_sum funded
  · intro cost member
    simp only [List.mem_cons, List.mem_append] at member
    rcases member with same | inBetween | inAfter
    · omega
    · exact betweenNonneg cost inBetween
    · exact afterNonneg cost inAfter
  · intro cost member
    simp only [List.mem_cons, List.mem_append] at member
    rcases member with (same | inBetween) | (same | inAfter)
    · omega
    · exact betweenNonneg cost inBetween
    · omega
    · exact afterNonneg cost inAfter
  · simp only [List.sum_cons, List.sum_append]
    omega

end AionFastVM.Library
