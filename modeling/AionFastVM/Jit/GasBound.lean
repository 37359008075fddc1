import AionFastVM.Jit.GasBatching
import AionFastVM.Jit.CallGas

/-!
# The gas counter stays within what the message brought
-/

namespace AionFastVM.Jit
open AionFastVM.Library AionFastVM.Jni GasOp

namespace GasOp

def counters : List GasOp → Int → List Int
  | [], _ => []
  | check cost :: rest, gas => if gas - cost < 0 then [] else (gas - cost) :: counters rest (gas - cost)
  | mockedCheck :: _, _ => []
  | resume use :: rest, gas =>
    match use gas with
    | none => []
    | some gas' => gas' :: counters rest gas'

structure Keeps (code : List GasOp) (gas : Int) : Prop where
  bounded : ∀ left ∈ counters code gas, 0 ≤ left ∧ left ≤ gas
  seen : ∀ found ∈ (run code gas).1, 0 ≤ found ∧ found < gas
  final : ∀ left, (run code gas).2 = some left → 0 ≤ left ∧ left ≤ gas

theorem counters_append (code rest : List GasOp) (gas : Int) :
    counters (code ++ rest) gas =
      counters code gas ++ ((run code gas).2.map (counters rest)).getD [] := by
  induction code generalizing gas with
  | nil => rfl
  | cons op code ih =>
    cases op with
    | check cost =>
      simp only [List.cons_append, counters, run]
      split
      · rfl
      · rw [ih, List.cons_append]
    | mockedCheck => rfl
    | resume use =>
      simp only [List.cons_append, counters, run]
      cases use gas with
      | none => rfl
      | some gas' => simp only [ih, List.cons_append]

theorem run_append (code rest : List GasOp) (gas : Int) :
    run (code ++ rest) gas =
      ((run code gas).1 ++ (runFrom (run code gas).2 rest).1, (runFrom (run code gas).2 rest).2) := by
  induction code generalizing gas with
  | nil => rfl
  | cons op code ih =>
    cases op with
    | check cost =>
      simp only [List.cons_append, run]
      split
      · rfl
      · exact ih _
    | mockedCheck => rfl
    | resume use =>
      simp only [List.cons_append, run]
      cases use gas with
      | none => rfl
      | some gas' => simp only [ih, List.cons_append]

theorem keeps_nil {gas : Int} (funded : 0 ≤ gas) : Keeps [] gas :=
  ⟨by simp [counters], by simp [run], by simp [run]; omega⟩

theorem Keeps.append {code rest : List GasOp} {gas : Int} (first : Keeps code gas)
    (second : ∀ left, (run code gas).2 = some left → Keeps rest left) : Keeps (code ++ rest) gas := by
  constructor
  · intro left member
    rw [counters_append, List.mem_append] at member
    rcases member with inFirst | inSecond
    · exact first.bounded left inFirst
    · cases ended : (run code gas).2 with
      | none => simp [ended] at inSecond
      | some mid =>
        simp only [ended, Option.map_some, Option.getD_some] at inSecond
        have bound := first.final mid ended
        have within := (second mid ended).bounded left inSecond
        omega
  · intro found member
    rw [run_append, List.mem_append] at member
    rcases member with inFirst | inSecond
    · exact first.seen found inFirst
    · cases ended : (run code gas).2 with
      | none => simp [ended, runFrom] at inSecond
      | some mid =>
        simp only [ended, runFrom_some] at inSecond
        have bound := first.final mid ended
        have within := (second mid ended).seen found inSecond
        omega
  · intro left ended
    rw [run_append] at ended
    cases firstEnd : (run code gas).2 with
    | none => simp [firstEnd, runFrom] at ended
    | some mid =>
      simp only [firstEnd, runFrom_some] at ended
      have bound := first.final mid firstEnd
      have within := (second mid firstEnd).final left ended
      omega

theorem Keeps.append_resume {code rest : List GasOp} {use : Int → Option Int} {gas : Int}
    (first : Keeps code gas) (lower : ∀ left, (run code gas).2 = some left → left < gas)
    (second : ∀ left next, (run code gas).2 = some left → use left = some next →
      0 ≤ next ∧ next ≤ left ∧ Keeps rest next) :
    Keeps (code ++ resume use :: rest) gas := by
  constructor
  · intro left member
    rw [counters_append, List.mem_append] at member
    rcases member with inFirst | inSecond
    · exact first.bounded left inFirst
    · cases ended : (run code gas).2 with
      | none => simp [ended] at inSecond
      | some atUse =>
        have bound := first.final atUse ended
        simp only [ended, Option.map_some, Option.getD_some, counters] at inSecond
        cases used : use atUse with
        | none => simp [used] at inSecond
        | some next =>
          obtain ⟨nextNonneg, nextLe, rest⟩ := second atUse next ended used
          simp only [used, List.mem_cons] at inSecond
          rcases inSecond with rfl | later
          · omega
          · have := rest.bounded left later
            omega
  · intro found member
    rw [run_append, List.mem_append] at member
    rcases member with inFirst | inSecond
    · exact first.seen found inFirst
    · cases ended : (run code gas).2 with
      | none => simp [ended, runFrom] at inSecond
      | some atUse =>
        have bound := first.final atUse ended
        have below := lower atUse ended
        simp only [ended, runFrom_some, run] at inSecond
        cases used : use atUse with
        | none =>
          simp only [used, List.mem_singleton] at inSecond
          omega
        | some next =>
          obtain ⟨nextNonneg, nextLe, rest⟩ := second atUse next ended used
          simp only [used, List.mem_cons] at inSecond
          rcases inSecond with rfl | later
          · omega
          · have := rest.seen found later
            omega
  · intro left ended
    rw [run_append] at ended
    cases firstEnd : (run code gas).2 with
    | none => simp [firstEnd, runFrom] at ended
    | some atUse =>
      have bound := first.final atUse firstEnd
      simp only [firstEnd, runFrom_some, run] at ended
      cases used : use atUse with
      | none => simp [used] at ended
      | some next =>
        obtain ⟨nextNonneg, nextLe, rest⟩ := second atUse next firstEnd used
        simp only [used] at ended
        have := rest.final left ended
        omega

theorem keeps_checks {costs : List Int} (nonneg : ∀ cost ∈ costs, 0 ≤ cost) {gas : Int}
    (funded : 0 ≤ gas) : Keeps (costs.map check) gas := by
  induction costs generalizing gas with
  | nil => exact keeps_nil funded
  | cons cost costs ih =>
    have costNonneg := nonneg cost List.mem_cons_self
    have restNonneg : ∀ other ∈ costs, 0 ≤ other :=
      fun other member => nonneg other (List.mem_cons_of_mem _ member)
    by_cases short : gas - cost < 0
    · exact ⟨by simp [counters, short], by simp [run, short], by simp [run, short]⟩
    · have after := ih restNonneg (show 0 ≤ gas - cost by omega)
      refine ⟨?_, ?_, ?_⟩
      · intro left member
        simp only [List.map_cons, counters, short, if_false, List.mem_cons] at member
        rcases member with rfl | later
        · omega
        · have := after.bounded left later
          omega
      · intro found member
        simp only [List.map_cons, run, short, if_false] at member
        have := after.seen found member
        omega
      · intro left ended
        simp only [List.map_cons, run, short, if_false] at ended
        have := after.final left ended
        omega

end GasOp

structure MeterStep.Lowers (rev : Revision) (step : MeterStep) : Prop where
  costs_nonneg : ∀ cost ∈ step.costs, 0 ≤ cost
  resume_cost : step.resume.isSome → 0 < getStepCost rev step.inst
  resume_le : ∀ use ∈ step.resume, ∀ gas left, 0 ≤ gas → gas + getStepCost rev step.inst ≤ gasMax →
    use gas = some left → 0 ≤ left ∧ left ≤ gas

section
variable {rev : Revision} {staticCall : Bool}

theorem keeps_closeBlock {blockCost : Int} {pending : List Int} (blockNonneg : 0 ≤ blockCost)
    (pendingNonneg : ∀ cost ∈ pending, 0 ≤ cost) {gas : Int} (funded : 0 ≤ gas) :
    Keeps (closeBlock blockCost pending) gas := by
  unfold closeBlock
  split
  · rw [List.nil_append]
    exact keeps_checks pendingNonneg funded
  · rw [List.singleton_append, ← List.map_cons]
    refine keeps_checks (fun cost member => ?_) funded
    rcases List.mem_cons.mp member with rfl | inPending
    · exact blockNonneg
    · exact pendingNonneg cost inPending

theorem run_closeBlock_le {blockCost : Int} {pending : List Int}
    (pendingNonneg : ∀ cost ∈ pending, 0 ≤ cost) {gas left : Int} (funded : 0 ≤ gas)
    (ended : (run (closeBlock blockCost pending) gas).2 = some left) : left ≤ gas - blockCost := by
  rw [← List.append_nil (closeBlock _ _), run_closeBlock funded] at ended
  cases paid : spend gas (blockCost :: pending) with
  | none => simp [paid, runFrom] at ended
  | some after =>
    simp only [paid, runFrom_some, run, Option.some.injEq] at ended
    subst ended
    rw [spend_cons] at paid
    split at paid
    · cases paid
    · have := spend_le pendingNonneg paid
      omega

theorem keeps_batched (steps : List MeterStep) (lowers : ∀ step ∈ steps, step.Lowers rev)
    {gas blockCost : Int} {pending : List Int} (funded : 0 ≤ gas) (below : gas ≤ gasMax)
    (blockNonneg : 0 ≤ blockCost) (pendingNonneg : ∀ cost ∈ pending, 0 ≤ cost) :
    Keeps (batched rev staticCall blockCost pending steps) gas := by
  -- the induction follows `batched`: a step extends the open block, or closes it at its resume
  induction steps generalizing gas blockCost pending with
  | nil => exact keeps_closeBlock blockNonneg pendingNonneg funded
  | cons step steps ih =>
    have stepLowers := lowers step List.mem_cons_self
    have restLowers : ∀ other ∈ steps, other.Lowers rev :=
      fun other member => lowers other (List.mem_cons_of_mem _ member)
    have stepNonneg := getStepCost_nonneg rev step.inst
    have grown : ∀ cost ∈ pending ++ step.costs, 0 ≤ cost := by
      intro cost member
      rcases List.mem_append.mp member with inPending | inCosts
      · exact pendingNonneg cost inPending
      · exact stepLowers.costs_nonneg cost inCosts
    rw [batched]
    split
    · cases resumes : step.resume with
      | none => exact ih restLowers funded below (by omega) grown
      | some use =>
        have positive := stepLowers.resume_cost (by simp [resumes])
        refine (keeps_closeBlock (by omega) grown funded).append_resume (fun atUse ended => ?_)
          fun atUse next ended used => ?_
        · -- the use finds the gas less the block's step costs, its own among them
          have found := run_closeBlock_le grown funded ended
          omega
        · have found := run_closeBlock_le grown funded ended
          have atUseNonneg := (keeps_closeBlock (by omega) grown funded).final atUse ended
          have lowered := stepLowers.resume_le use (by simp [resumes]) atUse next atUseNonneg.1
            (by omega) used
          exact ⟨lowered.1, lowered.2, ih restLowers lowered.1 (by omega) (Int.le_refl 0)
            (show ∀ cost ∈ ([] : List Int), 0 ≤ cost by simp)⟩
    · exact keeps_closeBlock (by omega) pendingNonneg funded

theorem keeps_compileBlock (steps : List MeterStep) (lowers : ∀ step ∈ steps, step.Lowers rev)
    {gas : Int} (funded : 0 ≤ gas) (below : gas ≤ gasMax) :
    Keeps (compileBlock rev staticCall steps) gas := by
  rw [compileBlock_eq_batched]
  exact keeps_batched steps lowers funded below (Int.le_refl 0) (by simp)

theorem keeps_run (blocks : List (List MeterStep))
    (lowers : ∀ block ∈ blocks, ∀ step ∈ block, step.Lowers rev) {gas : Int} (funded : 0 ≤ gas)
    (below : gas ≤ gasMax) :
    Keeps (blocks.map (compileBlock rev staticCall)).flatten gas := by
  -- the induction runs over the blocks, each starting from what the one before left
  induction blocks generalizing gas with
  | nil => exact keeps_nil funded
  | cons block blocks ih =>
    have first : Keeps (compileBlock rev staticCall block) gas :=
      keeps_compileBlock block (lowers block List.mem_cons_self) funded below
    rw [List.map_cons, List.flatten_cons]
    refine first.append fun left ended => ?_
    have bound := first.final left ended
    exact ih (fun other member => lowers other (List.mem_cons_of_mem _ member)) bound.1
      (by omega)

end

def gasStep : MeterStep := ⟨.gas, [], some some⟩

def callStep (rev : Revision) (staticCall : Bool) (inst : Instruction) (kind : Int32)
    (currentMsg : EvmMessage) (host : CallHost) (operands : CallOperands) (costs : List Int) :
    MeterStep :=
  ⟨inst, costs, some fun gas =>
    (callResume rev staticCall inst kind currentMsg host operands gas).map Prod.fst⟩

def createStep (rev : Revision) (currentMsg : EvmMessage) (host : CallHost)
    (operands : CallOperands) (costs : List Int) : MeterStep :=
  ⟨.create, costs, some fun gas => some (createResume rev currentMsg host operands gas).1⟩

theorem gasStep_lowers (rev : Revision) : gasStep.Lowers rev := by
  refine ⟨by simp [gasStep], fun _ => ?_, ?_⟩
  · simp only [gasStep, getStepCost, JITSchedule.stepGas1]
    split <;> omega
  · intro use member gas left funded _ used
    simp only [gasStep, Option.mem_def, Option.some.injEq] at member
    subst member
    simp only [Option.some.injEq] at used
    omega

theorem getStepCost_pos_of_callKind (rev : Revision) {inst : Instruction} {kind : Int32}
    (picked : callKind inst = some kind) : 0 < getStepCost rev inst := by
  have calls : inst = .create ∨ inst = .call ∨ inst = .callcode ∨ inst = .delegatecall ∨
      inst = .staticcall := by
    cases inst <;> simp_all [callKind]
  rcases calls with rfl | rfl | rfl | rfl | rfl <;>
    simp only [getStepCost, JITSchedule.createGas, JITSchedule.callGas] <;> split_ifs <;> omega

theorem callStep_lowers {rev : Revision} {staticCall : Bool} {inst : Instruction} {kind : Int32}
    (picked : callKind inst = some kind) (currentMsg : EvmMessage) {host : CallHost}
    (gives : host.GivesBack) (operands : CallOperands) {costs : List Int}
    (nonneg : ∀ cost ∈ costs, 0 ≤ cost) :
    (callStep rev staticCall inst kind currentMsg host operands costs).Lowers rev := by
  have positive := getStepCost_pos_of_callKind rev picked
  refine ⟨nonneg, fun _ => positive, ?_⟩
  intro use member gas left funded room used
  simp only [callStep, Option.mem_def, Option.some.injEq] at member
  subst member
  simp only [Option.map_eq_some_iff, Prod.exists, exists_and_right, exists_eq_right] at used
  obtain ⟨sent, ran⟩ := used
  have paidFirst : gas + getStepCost rev inst ≤ gasMax := room
  exact callResume_le gives funded (by omega) ran

theorem createStep_lowers (rev : Revision) (currentMsg : EvmMessage) {host : CallHost}
    (gives : host.GivesBack) (operands : CallOperands) {costs : List Int}
    (nonneg : ∀ cost ∈ costs, 0 ≤ cost) : (createStep rev currentMsg host operands costs).Lowers rev := by
  have positive := getStepCost_pos_of_callKind rev (show callKind .create = some evmCreate from rfl)
  refine ⟨nonneg, fun _ => positive, ?_⟩
  intro use member gas left funded room used
  simp only [createStep, Option.mem_def, Option.some.injEq] at member
  subst member
  simp only [Option.some.injEq] at used
  subst used
  have paidFirst : gas + getStepCost rev .create ≤ gasMax := room
  exact createResume_le gives operands funded (by omega)

inductive CompiledStep (rev : Revision) (staticCall : Bool) (host : CallHost) : MeterStep → Prop
  | pays (inst : Instruction) {costs : List Int} (nonneg : ∀ cost ∈ costs, 0 ≤ cost) :
      CompiledStep rev staticCall host ⟨inst, costs, none⟩
  | gas : CompiledStep rev staticCall host gasStep
  | call {inst : Instruction} {kind : Int32} (picked : callKind inst = some kind)
      (currentMsg : EvmMessage) (operands : CallOperands) {costs : List Int}
      (nonneg : ∀ cost ∈ costs, 0 ≤ cost) :
      CompiledStep rev staticCall host (callStep rev staticCall inst kind currentMsg host operands costs)
  | create (currentMsg : EvmMessage) (operands : CallOperands) {costs : List Int}
      (nonneg : ∀ cost ∈ costs, 0 ≤ cost) :
      CompiledStep rev staticCall host (createStep rev currentMsg host operands costs)

theorem CompiledStep.lowers {rev : Revision} {staticCall : Bool} {host : CallHost}
    (gives : host.GivesBack) {step : MeterStep} (compiled : CompiledStep rev staticCall host step) :
    step.Lowers rev := by
  cases compiled with
  | pays inst nonneg => exact ⟨nonneg, fun isSome => by simp at isSome, fun use member => by simp at member⟩
  | gas => exact gasStep_lowers rev
  | call picked currentMsg operands nonneg => exact callStep_lowers picked currentMsg gives operands nonneg
  | create currentMsg operands nonneg => exact createStep_lowers rev currentMsg gives operands nonneg

theorem keeps_compiledRun {rev : Revision} {staticCall : Bool} {host : CallHost}
    (gives : host.GivesBack) (blocks : List (List MeterStep))
    (compiled : ∀ block ∈ blocks, ∀ step ∈ block, CompiledStep rev staticCall host step)
    {gas : Int} (funded : 0 ≤ gas) (below : gas ≤ gasMax) :
    GasOp.Keeps (blocks.map (compileBlock rev staticCall)).flatten gas :=
  keeps_run blocks (fun block member step inBlock => (compiled block member step inBlock).lowers gives)
    funded below

end AionFastVM.Jit
