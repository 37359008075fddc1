import AionFastVM.Jit.GasMeter

/-!
# Batched gas checks charge as checks per instruction
-/

namespace AionFastVM.Jit
open AionFastVM.Library GasOp

def closeBlock (blockCost : Int) (pending : List Int) : List GasOp :=
  (if blockCost = 0 then [] else [.check blockCost]) ++ pending.map .check

variable (rev : Revision) (staticCall : Bool)

def batched : Int → List Int → List MeterStep → List GasOp
  | blockCost, pending, [] => closeBlock blockCost pending
  | blockCost, pending, step :: steps =>
    if validIn rev staticCall step.inst then
      match step.resume with
      | none => batched (blockCost + getStepCost rev step.inst) (pending ++ step.costs) steps
      | some use =>
        closeBlock (blockCost + getStepCost rev step.inst) (pending ++ step.costs) ++
          .resume use :: batched 0 [] steps
    else closeBlock (blockCost + getStepCost rev step.inst) pending

namespace GasMeter

def closed (done : List GasOp) : GasMeter := ⟨done, none, 0⟩

def opened (done : List GasOp) (blockCost : Int) (pending : List Int) : GasMeter :=
  ⟨done ++ .mockedCheck :: pending.map .check, some done.length, blockCost⟩

theorem empty_eq : empty = closed [] := rfl

theorem count_opened (done : List GasOp) (blockCost : Int) (pending : List Int)
    (inst : Instruction) :
    (opened done blockCost pending).count rev inst =
      opened done (blockCost + getStepCost rev inst) pending := rfl

theorem count_closed (done : List GasOp) (inst : Instruction) :
    (closed done).count rev inst = (opened done 0 []).count rev inst := rfl

theorem foldl_countValue_opened (done : List GasOp) (blockCost : Int) (pending costs : List Int) :
    costs.foldl countValue (opened done blockCost pending) = opened done blockCost (pending ++ costs) := by
  induction costs generalizing pending with
  | nil => simp
  | cons cost costs ih =>
    have appended : (opened done blockCost pending).countValue cost =
        opened done blockCost (pending ++ [cost]) := by
      simp [countValue, opened]
    rw [List.foldl_cons, appended, ih]
    simp

theorem commitCostBlock_opened (done : List GasOp) (blockCost : Int) (pending : List Int) :
    (opened done blockCost pending).commitCostBlock = closed (done ++ closeBlock blockCost pending) := by
  by_cases free : blockCost = 0
  · subst free
    simp [commitCostBlock, opened, closed, closeBlock,
      List.eraseIdx_append_of_length_le (Nat.le_refl _)]
  · simp [commitCostBlock, opened, closed, closeBlock, free]

theorem commitCostBlock_closed (done : List GasOp) :
    (closed done).commitCostBlock = closed done := rfl

end GasMeter

open GasMeter

theorem compileSteps_closed (done : List GasOp) (steps : List MeterStep) :
    (compileSteps rev staticCall (closed done) steps).commitCostBlock =
      (compileSteps rev staticCall (opened done 0 []) steps).commitCostBlock := by
  cases steps with
  | nil => simp [compileSteps, commitCostBlock_closed, commitCostBlock_opened, closeBlock]
  | cons step steps => simp only [compileSteps, compileStep, count_closed]

theorem compileSteps_opened (steps : List MeterStep) (done : List GasOp) (blockCost : Int)
    (pending : List Int) :
    (compileSteps rev staticCall (opened done blockCost pending) steps).commitCostBlock.code =
      done ++ batched rev staticCall blockCost pending steps := by
  induction steps generalizing done blockCost pending with
  | nil => simp [compileSteps, commitCostBlock_opened, closed, batched]
  | cons step steps ih =>
    by_cases valid : validIn rev staticCall step.inst
    · cases resumes : step.resume with
      | none =>
        simp only [compileSteps, compileStep, valid, if_true, count_opened, foldl_countValue_opened,
          resumes, batched]
        exact ih _ _ _
      | some use =>
        simp only [compileSteps, compileStep, valid, if_true, count_opened, foldl_countValue_opened,
          resumes, commitCostBlock_opened, batched]
        have next := ih (done ++ closeBlock (blockCost + getStepCost rev step.inst)
          (pending ++ step.costs) ++ [.resume use]) 0 []
        rw [← compileSteps_closed] at next
        simpa [closed] using next
    · simp [compileSteps, compileStep, valid, count_opened, commitCostBlock_opened, closed, batched]

theorem compileBlock_eq_batched (steps : List MeterStep) :
    compileBlock rev staticCall steps = batched rev staticCall 0 [] steps := by
  rw [compileBlock, empty_eq, compileSteps_closed, compileSteps_opened, List.nil_append]

theorem run_closeBlock {gas blockCost : Int} (funded : 0 ≤ gas) (pending : List Int)
    (rest : List GasOp) :
    run (closeBlock blockCost pending ++ rest) gas = runFrom (spend gas (blockCost :: pending)) rest := by
  by_cases free : blockCost = 0
  · have skip : spend gas (blockCost :: pending) = spend gas pending := by
      rw [spend_cons, if_neg (by omega), free, Int.sub_zero]
    rw [closeBlock, if_pos free, List.nil_append, run_checks, skip]
  · rw [closeBlock, if_neg free]
    exact run_checks (blockCost :: pending) rest gas

section
variable {rev staticCall}

theorem run_batched (steps : List MeterStep) (sound : ∀ step ∈ steps, step.Sound)
    {gas blockCost : Int} {pending : List Int} (funded : 0 ≤ gas) (blockNonneg : 0 ≤ blockCost)
    (pendingNonneg : ∀ cost ∈ pending, 0 ≤ cost) :
    run (batched rev staticCall blockCost pending steps) gas =
      runFrom (spend gas (blockCost :: pending)) (perInstruction rev staticCall steps) := by
  induction steps generalizing gas blockCost pending with
  | nil =>
    rw [batched, ← List.append_nil (closeBlock _ _), run_closeBlock funded]
    rfl
  | cons step steps ih =>
    have stepSound := sound step List.mem_cons_self
    have restSound : ∀ other ∈ steps, other.Sound :=
      fun other member => sound other (List.mem_cons_of_mem _ member)
    have stepNonneg := getStepCost_nonneg rev step.inst
    have blockSum : 0 ≤ blockCost + getStepCost rev step.inst := by omega
    by_cases valid : validIn rev staticCall step.inst
    · have paid := spend_regroup funded blockNonneg stepNonneg pendingNonneg stepSound.costs_nonneg
      cases resumes : step.resume with
      | none =>
        have grown : ∀ cost ∈ pending ++ step.costs, 0 ≤ cost := by
          intro cost member
          rcases List.mem_append.mp member with inPending | inCosts
          · exact pendingNonneg cost inPending
          · exact stepSound.costs_nonneg cost inCosts
        rw [batched, if_pos valid, resumes, ih restSound funded blockSum grown, paid, runFrom_bind,
          perInstruction, if_pos valid, MeterStep.resumeCode, resumes]
        simp
      | some use =>
        have checksFirst : GasOp.check (getStepCost rev step.inst) ::
            (step.costs.map check ++ [resume use] ++ perInstruction rev staticCall steps) =
            (getStepCost rev step.inst :: step.costs).map check ++
              resume use :: perInstruction rev staticCall steps := by
          simp
        rw [batched, if_pos valid, resumes, run_closeBlock funded, paid, runFrom_bind,
          perInstruction, if_pos valid, MeterStep.resumeCode, resumes, checksFirst]
        apply runFrom_congr
        intro left spent
        rw [run_checks, run_checks]
        apply runFrom_congr
        intro atUse paidStep
        have useNonneg := spend_nonneg (spend_nonneg funded spent) paidStep
        simp only [run]
        cases used : use atUse with
        | none => rfl
        | some next =>
          have nextNonneg := stepSound.resume_nonneg use resumes atUse next useNonneg used
          have fresh := ih restSound nextNonneg (Int.le_refl 0)
            (show ∀ cost ∈ ([] : List Int), 0 ≤ cost by simp)
          rw [spend_zero nextNonneg, runFrom_some] at fresh
          dsimp only
          rw [fresh]
    · -- an invalid instruction ends the block after its step cost
      have paid := spend_regroup funded blockNonneg stepNonneg pendingNonneg
        (show ∀ cost ∈ ([] : List Int), 0 ≤ cost by simp)
      rw [List.append_nil] at paid
      rw [batched, if_neg valid, ← List.append_nil (closeBlock _ _), run_closeBlock funded, paid,
        runFrom_bind, perInstruction, if_neg valid]
      rfl

end

/-- The batched gas checks of a block behave as checking each instruction's costs where they
arise. -/
theorem compileBlock_charges_as_perInstruction (rev : Revision) (staticCall : Bool)
    (steps : List MeterStep) (sound : ∀ step ∈ steps, step.Sound) {gas : Int} (funded : 0 ≤ gas) :
    run (compileBlock rev staticCall steps) gas = run (perInstruction rev staticCall steps) gas := by
  rw [compileBlock_eq_batched, run_batched steps sound funded (Int.le_refl 0)
    (show ∀ cost ∈ ([] : List Int), 0 ≤ cost by simp), spend_zero funded, runFrom_some]

theorem compileBlock_charges_as_perInstruction_mstore_gas :
    (∀ step ∈ ([⟨.jumpdest, [], none⟩, ⟨.mstore, [3], none⟩, ⟨.gas, [], some some⟩] :
      List MeterStep), step.Sound) ∧
      (0 : Int) ≤ 10 ∧
      run (compileBlock .aion false
          [⟨.jumpdest, [], none⟩, ⟨.mstore, [3], none⟩, ⟨.gas, [], some some⟩]) 10 =
        run (perInstruction .aion false
          [⟨.jumpdest, [], none⟩, ⟨.mstore, [3], none⟩, ⟨.gas, [], some some⟩]) 10 := by
  have sound : ∀ step ∈ ([⟨.jumpdest, [], none⟩, ⟨.mstore, [3], none⟩, ⟨.gas, [], some some⟩] :
      List MeterStep), step.Sound := by
    intro step member
    simp only [List.mem_cons, List.not_mem_nil, or_false] at member
    rcases member with rfl | rfl | rfl
    · exact ⟨by simp, by simp⟩
    · exact ⟨by simp, by simp⟩
    · refine ⟨by simp, ?_⟩
      intro use same gas left funded used
      simp only [Option.mem_def, Option.some.injEq] at same
      subst same
      simp only [Option.some.injEq] at used
      omega
  exact ⟨sound, by decide, compileBlock_charges_as_perInstruction _ _ _ sound (by decide)⟩

end AionFastVM.Jit
