import AionFastVM.Jit.Instruction
import AionFastVM.Library.Budget

/-!
# The gas meter of a basic block

`GasOp` lists the gas operations of one run of a compiled block in the order the code runs them,
each run-time cost with its value in this run.
-/

namespace AionFastVM.Jit
open AionFastVM.Library

inductive GasOp where
  | check (cost : Int)
  /-- The check a cost block opens with, before `commitCostBlock` gives it its cost. -/
  | mockedCheck
  | resume (use : Int → Option Int)

namespace GasOp

def run : List GasOp → Int → List Int × Option Int
  | [], gas => ([], some gas)
  | check cost :: rest, gas => if gas - cost < 0 then ([], none) else run rest (gas - cost)
  -- compiled code never holds a mocked check (`compileBlock_eq_batched`)
  | mockedCheck :: _, _ => ([], none)
  | resume use :: rest, gas =>
    match use gas with
    | none => ([gas], none)
    | some gas' => (gas :: (run rest gas').1, (run rest gas').2)

def runFrom (left : Option Int) (code : List GasOp) : List Int × Option Int :=
  match left with
  | none => ([], none)
  | some gas => run code gas

@[simp] theorem runFrom_none (code : List GasOp) : runFrom none code = ([], none) := rfl

@[simp] theorem runFrom_some (gas : Int) (code : List GasOp) :
    runFrom (some gas) code = run code gas := rfl

theorem run_checks (costs : List Int) (rest : List GasOp) (gas : Int) :
    run (costs.map check ++ rest) gas = runFrom (spend gas costs) rest := by
  induction costs generalizing gas with
  | nil => rfl
  | cons cost costs ih =>
    rw [List.map_cons, List.cons_append, run, spend_cons]
    split
    · rfl
    · exact ih _

theorem runFrom_bind (left : Option Int) (costs : List Int) (rest : List GasOp) :
    runFrom (left.bind (spend · costs)) rest = runFrom left (costs.map check ++ rest) := by
  cases left with
  | none => rfl
  | some gas => exact (run_checks costs rest gas).symm

theorem runFrom_congr {left : Option Int} {code code' : List GasOp}
    (same : ∀ gas, left = some gas → run code gas = run code' gas) :
    runFrom left code = runFrom left code' := by
  cases left with
  | none => rfl
  | some gas => exact same gas rfl

end GasOp

structure GasMeter where
  code : List GasOp
  checkCall : Option Nat
  blockCost : Int

namespace GasMeter

def empty : GasMeter := ⟨[], none, 0⟩

def count (rev : Revision) (meter : GasMeter) (inst : Instruction) : GasMeter :=
  let meter := match meter.checkCall with
    | none =>
      { meter with code := meter.code ++ [GasOp.mockedCheck], checkCall := some meter.code.length }
    | some _ => meter
  { meter with blockCost := meter.blockCost + getStepCost rev inst }

def countValue (meter : GasMeter) (cost : Int) : GasMeter :=
  { meter with code := meter.code ++ [GasOp.check cost] }

def commitCostBlock (meter : GasMeter) : GasMeter :=
  match meter.checkCall with
  | none => meter
  | some call =>
    if meter.blockCost = 0 then { meter with code := meter.code.eraseIdx call, checkCall := none }
    else
      { code := meter.code.set call (GasOp.check meter.blockCost), checkCall := none, blockCost := 0 }

end GasMeter

structure MeterStep where
  inst : Instruction
  costs : List Int
  resume : Option (Int → Option Int)

namespace MeterStep

def resumeCode (step : MeterStep) : List GasOp :=
  match step.resume with
  | none => []
  | some use => [.resume use]

structure Sound (step : MeterStep) : Prop where
  costs_nonneg : ∀ cost ∈ step.costs, 0 ≤ cost
  resume_nonneg : ∀ use ∈ step.resume, ∀ gas left, 0 ≤ gas → use gas = some left → 0 ≤ left

end MeterStep

variable (rev : Revision) (staticCall : Bool)

def compileStep (meter : GasMeter) (step : MeterStep) : GasMeter :=
  let meter := meter.count rev step.inst
  if validIn rev staticCall step.inst then
    let meter := step.costs.foldl GasMeter.countValue meter
    match step.resume with
    | none => meter
    | some use =>
      let meter := meter.commitCostBlock
      { meter with code := meter.code ++ [GasOp.resume use] }
  else meter

def compileSteps : GasMeter → List MeterStep → GasMeter
  | meter, [] => meter
  | meter, step :: steps =>
    if validIn rev staticCall step.inst then
      compileSteps (compileStep rev staticCall meter step) steps
    else compileStep rev staticCall meter step

def compileBlock (steps : List MeterStep) : List GasOp :=
  (compileSteps rev staticCall GasMeter.empty steps).commitCostBlock.code

def perInstruction : List MeterStep → List GasOp
  | [] => []
  | step :: steps =>
    .check (getStepCost rev step.inst) ::
      if validIn rev staticCall step.inst then
        step.costs.map .check ++ step.resumeCode ++ perInstruction steps
      else []

end AionFastVM.Jit
