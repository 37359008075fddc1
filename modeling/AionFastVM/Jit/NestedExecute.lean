import AionFastVM.Jit.Execute
import AionFastVM.Jit.Blocks

/-!
# Nested executions and the current message

Compiled code is seen as the calls it makes and how it ends (`Program`); the host answers a call
at once or by a nested `execute`. Every message handed to the host is recorded with the message
of the execution whose code made the call.
-/

namespace AionFastVM.Jit
open AionFastVM.Library AionFastVM.Jni Relation

structure RuntimeData where
  code : List UInt8
  gas : Int64
  callData : List UInt8
  apparentValue : DataWord
  address : Address
  caller : Address
  depth : Int32

def RuntimeData.ofMessage (msg : EvmMessage) (code : List UInt8) : RuntimeData :=
  ⟨code, msg.gas, msg.input, msg.value, msg.address, msg.caller, msg.depth⟩

structure CallRequest where
  kind : Int32
  gas : Int64
  address : Address
  value : DataWord
  input : List UInt8

def CallRequest.message (request : CallRequest) (currentMsg : EvmMessage) : EvmMessage :=
  callMessage currentMsg request.kind request.gas request.address request.value request.input

/-- Compiled code as the JIT sees it: calls through the call wrapper, then the end of the function. -/
inductive Program where
  | call (request : CallRequest) (next : Int64 → List UInt8 → Program)
  | finish (returnCode : ReturnCode) (gas : Int64) (returnData : List UInt8)

def ExecFunc := RuntimeData → Program

structure CodeMapEntry where
  func : Option ExecFunc
  hits : Nat

structure JITImpl where
  codeMap : List Char → CodeMapEntry
  currentMsg : Option EvmMessage
  returnBuffer : List UInt8
  hitThreshold : Nat
  compileCount : Nat

def JITImpl.initial : JITImpl := ⟨fun _ => ⟨none, 0⟩, none, [], 0, 0⟩

structure Sent where
  frame : EvmMessage
  request : CallRequest
  msg : EvmMessage

structure Session where
  jit : JITImpl
  sent : List Sent

inductive HostCall where
  | answer (result : EvmResult)
  | run (rev : Revision) (msg : EvmMessage) (codeHash : EvmHash) (code : List UInt8)
      (reply : EvmResult → EvmResult)

structure FnTable where
  getBalance : Address → Nat
  call : EvmMessage → HostCall

def getExecFunc (jit : JITImpl) (codeIdentifier : List Char) : CodeMapEntry × JITImpl :=
  let entry := jit.codeMap codeIdentifier
  let entry := { entry with hits := entry.hits + 1 }
  (entry, { jit with codeMap := Function.update jit.codeMap codeIdentifier entry })

def mapExecFunc (jit : JITImpl) (codeIdentifier : List Char) (func : ExecFunc) : JITImpl :=
  let entry := jit.codeMap codeIdentifier
  { jit with codeMap := Function.update jit.codeMap codeIdentifier { entry with func := some func } }

@[simp] theorem mapExecFunc_currentMsg (jit : JITImpl) (codeIdentifier : List Char)
    (func : ExecFunc) : (mapExecFunc jit codeIdentifier func).currentMsg = jit.currentMsg := rfl

@[simp] theorem mapExecFunc_hitThreshold (jit : JITImpl) (codeIdentifier : List Char)
    (func : ExecFunc) : (mapExecFunc jit codeIdentifier func).hitThreshold = jit.hitThreshold := rfl

def resetEngine (jit : JITImpl) : JITImpl := { jit with codeMap := fun _ => ⟨none, 0⟩ }

def earlyResult (status : EvmStatusCode) : EvmResult := ⟨status.toInt, 0, []⟩

def executeResult (returnCode : ReturnCode) (gas : Int64) (returnData : List UInt8) : EvmResult :=
  let (statusCode, gasLeft) :=
    if returnCode = .revert then (EvmStatusCode.revert, gas)
    else if returnCode = .outOfGas then (.outOfGas, 0)
    else (.success, gas)
  let output := if returnCode = .return ∨ returnCode = .revert then returnData else []
  ⟨statusCode.toInt, gasLeft, output⟩

section Nesting

variable (table : FnTable)
  (codegen : Revision → Bool → List UInt8 → List Char → Option ExecFunc)

def compile (jit : JITImpl) (rev : Revision) (staticCall : Bool) (code : List UInt8)
    (codeIdentifier : List Char) : Option ExecFunc × JITImpl :=
  let cnt := jit.compileCount + 1
  let jit := { jit with compileCount := cnt }
  let jit := if cnt % 20000 = 0 then resetEngine jit else jit
  (codegen rev staticCall code codeIdentifier, jit)

variable (host : Session → EvmMessage → Option (EvmResult × Session))

/-- `call_v2`: the message is built from `jit.currentMsg`, whichever execution set it. -/
def callV2 (s : Session) (frame : EvmMessage) (request : CallRequest) :
    Option ((Int64 × List UInt8) × Session) := do
  let currentMsg ← s.jit.currentMsg
  let msg := request.message currentMsg
  let s := { s with sent := s.sent ++ [⟨frame, request, msg⟩] }
  let (result, s) ← host s msg
  pure ((callReturn result, result.output),
    { s with jit := { s.jit with returnBuffer := result.output } })

def callFunc (s : Session) (frame : EvmMessage) (rt : RuntimeData) (request : CallRequest) :
    Option ((Int64 × List UInt8) × Session) :=
  let fail := some ((request.gas ||| evmCallFailure, []), s)
  if rt.depth.toInt < 1024 then
    if request.kind ≠ evmDelegatecall ∧ wordValue request.value ≠ 0 ∧
        table.getBalance rt.address < wordValue request.value then fail
    else callV2 host s frame request
  else fail

def runProgram (frame : EvmMessage) (rt : RuntimeData) :
    Program → Session → Option ((ReturnCode × Int64 × List UInt8) × Session)
  | .call request next, s => do
    let ((r, returnData), s) ← callFunc table host s frame rt request
    runProgram frame rt (next r returnData) s
  | .finish returnCode gas returnData, s => some ((returnCode, gas, returnData), s)

def hostCall (exec : Session → Revision → EvmMessage → EvmHash → List UInt8 →
    Option (EvmResult × Session)) (s : Session) (msg : EvmMessage) : Option (EvmResult × Session) :=
  match table.call msg with
  | .answer result => some (result, s)
  | .run rev msg codeHash code reply =>
    (exec s rev msg codeHash code).map fun (result, s) => (reply result, s)

def runFunc (exec : Session → Revision → EvmMessage → EvmHash → List UInt8 →
    Option (EvmResult × Session)) (prevMsg : Option EvmMessage) (msg : EvmMessage)
    (rt : RuntimeData) (func : ExecFunc) (s : Session) : Option (EvmResult × Session) := do
  let ((returnCode, gas, returnData), s) ← runProgram table (hostCall table exec) msg rt (func rt) s
  pure (executeResult returnCode gas returnData,
    { s with jit := { s.jit with currentMsg := prevMsg } })

/-- `execute`, with `fuel` bounding the depth of nesting. -/
def execute : Nat → Session → Revision → EvmMessage → EvmHash → List UInt8 →
    Option (EvmResult × Session)
  | 0, _, _, _, _, _ => none
  | fuel + 1, s, rev, msg, codeHash, code =>
    let prevMsg := s.jit.currentMsg
    let s := { s with jit := { s.jit with currentMsg := some msg } }
    let rt := RuntimeData.ofMessage msg code
    let codeIdentifier := makeCodeId codeHash rev msg.flags
    let (codeEntry, jit) := getExecFunc s.jit codeIdentifier
    let s := { s with jit := jit }
    match codeEntry.func with
    | some func => runFunc table (execute fuel) prevMsg msg rt func s
    | none =>
      if codeEntry.hits ≤ s.jit.hitThreshold then some (earlyResult .rejected, s)
      else
        let (func, jit) := compile codegen s.jit rev (isStatic msg.flags) code codeIdentifier
        match func with
        | none => some (earlyResult .internalError, { s with jit := jit })
        | some func =>
          runFunc table (execute fuel) prevMsg msg rt func
            { s with jit := mapExecFunc jit codeIdentifier func }

@[simp] theorem compile_fst (jit : JITImpl) (rev : Revision) (staticCall : Bool) (code : List UInt8)
    (codeIdentifier : List Char) :
    (compile codegen jit rev staticCall code codeIdentifier).1 =
      codegen rev staticCall code codeIdentifier := rfl

@[simp] theorem compile_currentMsg (jit : JITImpl) (rev : Revision) (staticCall : Bool)
    (code : List UInt8) (codeIdentifier : List Char) :
    (compile codegen jit rev staticCall code codeIdentifier).2.currentMsg = jit.currentMsg := by
  dsimp only [compile, resetEngine]
  split <;> rfl

@[simp] theorem compile_hitThreshold (jit : JITImpl) (rev : Revision) (staticCall : Bool)
    (code : List UInt8) (codeIdentifier : List Char) :
    (compile codegen jit rev staticCall code codeIdentifier).2.hitThreshold = jit.hitThreshold := by
  dsimp only [compile, resetEngine]
  split <;> rfl

def earlyReturn (result : EvmResult) : Bool :=
  result.statusCode = EvmStatusCode.rejected.toInt ||
    result.statusCode = EvmStatusCode.internalError.toInt

structure Entered (msg : EvmMessage) (s s' : Session) : Prop where
  sent : s'.sent = s.sent
  current : s'.jit.currentMsg = some msg
  threshold : s'.jit.hitThreshold = s.jit.hitThreshold

variable {table codegen}
variable {fuel : Nat} {s s' : Session} {rev : Revision} {msg : EvmMessage} {codeHash : EvmHash}
  {code : List UInt8} {result : EvmResult}

theorem execute_cases (ran : execute table codegen (fuel + 1) s rev msg codeHash code =
    some (result, s')) :
    (∃ func s₁, Entered msg s s₁ ∧ runFunc table (execute table codegen fuel) s.jit.currentMsg msg
        (RuntimeData.ofMessage msg code) func s₁ = some (result, s')) ∨
      ((s.jit.codeMap (makeCodeId codeHash rev msg.flags)).hits + 1 ≤ s.jit.hitThreshold ∧
        result = earlyResult .rejected ∧ Entered msg s s') ∨
      (codegen rev (isStatic msg.flags) code (makeCodeId codeHash rev msg.flags) = none ∧
        result = earlyResult .internalError ∧ Entered msg s s') := by
  simp only [execute, getExecFunc] at ran
  split at ran
  · refine .inl ⟨_, _, ?_, ran⟩
    exact ⟨rfl, rfl, rfl⟩
  · by_cases below :
        (s.jit.codeMap (makeCodeId codeHash rev msg.flags)).hits + 1 ≤ s.jit.hitThreshold
    · simp only [below, ↓reduceIte] at ran
      obtain ⟨rfl, rfl⟩ := Prod.mk.inj (Option.some.inj ran)
      exact .inr (.inl ⟨below, rfl, rfl, rfl, rfl⟩)
    · simp only [below, ↓reduceIte, compile_fst] at ran
      split at ran
      case h_1 failed =>
        obtain ⟨rfl, rfl⟩ := Prod.mk.inj (Option.some.inj ran)
        exact .inr (.inr ⟨failed, rfl, rfl, by simp, by simp⟩)
      case h_2 func compiled =>
        refine .inl ⟨func, _, ?_, ran⟩
        exact ⟨rfl, by simp, by simp⟩

theorem runFunc_cases {exec : Session → Revision → EvmMessage → EvmHash → List UInt8 →
    Option (EvmResult × Session)} {prevMsg : Option EvmMessage} {rt : RuntimeData}
    {func : ExecFunc} (ran : runFunc table exec prevMsg msg rt func s = some (result, s')) :
    ∃ returnCode gas returnData s₁,
      runProgram table (hostCall table exec) msg rt (func rt) s =
        some ((returnCode, gas, returnData), s₁) ∧
      result = executeResult returnCode gas returnData ∧
      s' = { s₁ with jit := { s₁.jit with currentMsg := prevMsg } } := by
  unfold runFunc at ran
  cases running : runProgram table (hostCall table exec) msg rt (func rt) s with
  | none => simp [running] at ran
  | some out =>
    obtain ⟨⟨returnCode, gas, returnData⟩, s₁⟩ := out
    simp only [running, Option.bind_eq_bind, Option.bind_some, Option.pure_def,
      Option.some.injEq, Prod.mk.injEq] at ran
    exact ⟨returnCode, gas, returnData, s₁, rfl, ran.1.symm, ran.2.symm⟩

theorem earlyReturn_executeResult (returnCode : ReturnCode) (gas : Int64)
    (returnData : List UInt8) : earlyReturn (executeResult returnCode gas returnData) = false := by
  cases returnCode <;> rfl

theorem execute_currentMsg (ran : execute table codegen fuel s rev msg codeHash code =
    some (result, s')) :
    s'.jit.currentMsg = if earlyReturn result then some msg else s.jit.currentMsg := by
  cases fuel with
  | zero => cases ran
  | succ fuel =>
    rcases execute_cases ran with ⟨func, s₁, -, run⟩ | ⟨-, rfl, entered⟩ | ⟨-, rfl, entered⟩
    · obtain ⟨returnCode, gas, returnData, s₂, -, rfl, rfl⟩ := runFunc_cases run
      rw [earlyReturn_executeResult, if_neg Bool.false_ne_true]
    · exact entered.current
    · exact entered.current

/-! ## Every call is built from its own frame -/

def Session.FromFrames (s : Session) : Prop := ∀ e ∈ s.sent, e.msg = e.request.message e.frame

def Restoring {α : Type} (run : Session → Option (α × Session)) : Prop :=
  ∀ s a s', run s = some (a, s') → s.FromFrames → s.jit.hitThreshold = 0 →
    s'.FromFrames ∧ s'.jit.currentMsg = s.jit.currentMsg ∧ s'.jit.hitThreshold = 0

structure Running (frame : EvmMessage) (s : Session) : Prop where
  fromFrames : s.FromFrames
  current : s.jit.currentMsg = some frame
  threshold : s.jit.hitThreshold = 0

variable {host : Session → EvmMessage → Option (EvmResult × Session)} {frame : EvmMessage}
  {request : CallRequest} {out : Int64 × List UInt8}

theorem callV2_cases (called : callV2 host s frame request = some (out, s')) :
    ∃ currentMsg result s₁, s.jit.currentMsg = some currentMsg ∧
      host { s with sent := s.sent ++ [⟨frame, request, request.message currentMsg⟩] }
        (request.message currentMsg) = some (result, s₁) ∧
      s' = { s₁ with jit := { s₁.jit with returnBuffer := result.output } } := by
  unfold callV2 at called
  cases current : s.jit.currentMsg with
  | none => simp [current] at called
  | some currentMsg =>
    simp only [current, Option.bind_eq_bind, Option.bind_some] at called
    cases asked : host { s with sent := s.sent ++ [⟨frame, request, request.message currentMsg⟩] }
        (request.message currentMsg) with
    | none => simp [asked] at called
    | some answer =>
      obtain ⟨result, s₁⟩ := answer
      simp only [asked, Option.bind_some, Option.pure_def, Option.some.injEq, Prod.mk.injEq] at called
      exact ⟨currentMsg, result, s₁, rfl, asked, called.2.symm⟩

theorem callFunc_cases {rt : RuntimeData}
    (called : callFunc table host s frame rt request = some (out, s')) :
    s' = s ∨ callV2 host s frame request = some (out, s') := by
  unfold callFunc at called
  split at called
  · split at called
    · exact .inl (Prod.mk.inj (Option.some.inj called)).2.symm
    · exact .inr called
  · exact .inl (Prod.mk.inj (Option.some.inj called)).2.symm

theorem callFunc_running {rt : RuntimeData} (restores : ∀ msg, Restoring (fun s => host s msg))
    (running : Running frame s) (called : callFunc table host s frame rt request = some (out, s')) :
    Running frame s' := by
  rcases callFunc_cases called with rfl | called
  · exact running
  obtain ⟨currentMsg, result, s₁, current, asked, rfl⟩ := callV2_cases called
  rw [running.current, Option.some.injEq] at current
  subst current
  have recorded : Session.FromFrames
      { s with sent := s.sent ++ [⟨frame, request, request.message frame⟩] } := by
    intro e member
    rcases List.mem_append.mp member with old | added
    · exact running.fromFrames e old
    · rw [List.mem_singleton.mp added]
  obtain ⟨fromFrames, current, threshold⟩ := restores _ _ _ _ asked recorded running.threshold
  exact ⟨fromFrames, current.trans running.current, threshold⟩

theorem runProgram_invariant (inv : Session → Prop) {rt : RuntimeData}
    {result : ReturnCode × Int64 × List UInt8}
    (step : ∀ s request out s', inv s → callFunc table host s frame rt request = some (out, s') →
      inv s')
    (prog : Program) (s : Session) (holds : inv s)
    (ran : runProgram table host frame rt prog s = some (result, s')) : inv s' := by
  induction prog generalizing s with
  | call request next ih =>
    simp only [runProgram, Option.bind_eq_bind] at ran
    obtain ⟨⟨out, s₁⟩, called, rest⟩ := Option.bind_eq_some_iff.mp ran
    exact ih out.1 out.2 s₁ (step s request out s₁ holds called) rest
  | finish returnCode gas returnData =>
    obtain ⟨-, rfl⟩ := Prod.mk.inj (Option.some.inj ran)
    exact holds

theorem hostCall_cases {exec : Session → Revision → EvmMessage → EvmHash → List UInt8 →
    Option (EvmResult × Session)} (asked : hostCall table exec s msg = some (result, s')) :
    s' = s ∨ ∃ rev msg' codeHash code nested, exec s rev msg' codeHash code = some (nested, s') := by
  unfold hostCall at asked
  split at asked
  · exact .inl (Prod.mk.inj (Option.some.inj asked)).2.symm
  · obtain ⟨⟨nested, s₁⟩, ran, replied⟩ := Option.map_eq_some_iff.mp asked
    obtain ⟨-, rfl⟩ := Prod.mk.inj replied
    exact .inr ⟨_, _, _, _, _, ran⟩

theorem hostCall_restoring {exec : Session → Revision → EvmMessage → EvmHash → List UInt8 →
    Option (EvmResult × Session)}
    (nested : ∀ rev msg codeHash code, Restoring (fun s => exec s rev msg codeHash code))
    (msg : EvmMessage) : Restoring (fun s => hostCall table exec s msg) := by
  intro s result s' asked fromFrames threshold
  rcases hostCall_cases asked with rfl | ⟨rev, msg', codeHash, code, nestedResult, ran⟩
  · exact ⟨fromFrames, rfl, threshold⟩
  · exact nested _ _ _ _ _ _ _ ran fromFrames threshold

theorem execute_restoring
    (compiles : ∀ rev staticCall code codeIdentifier,
      (codegen rev staticCall code codeIdentifier).isSome)
    (fuel : Nat) (rev : Revision) (msg : EvmMessage) (codeHash : EvmHash) (code : List UInt8) :
    Restoring (fun s => execute table codegen fuel s rev msg codeHash code) := by
  induction fuel generalizing rev msg codeHash code with
  | zero =>
    intro s result s' ran
    cases ran
  | succ fuel ih =>
    intro s result s' ran fromFrames threshold
    rcases execute_cases ran with ⟨func, s₁, entered, run⟩ | ⟨below, -, -⟩ | ⟨failed, -, -⟩
    · obtain ⟨returnCode, gas, returnData, s₂, program, -, rfl⟩ := runFunc_cases run
      have start : Running msg s₁ :=
        ⟨fun e member => fromFrames e (entered.sent ▸ member), entered.current,
          entered.threshold.trans threshold⟩
      have running := runProgram_invariant (Running msg)
        (fun _ _ _ _ running called => callFunc_running (hostCall_restoring ih) running called)
        _ s₁ start program
      exact ⟨running.fromFrames, rfl, running.threshold⟩
    · -- a hit is counted before the test, so no entry is below a threshold of 0
      omega
    · have compiled := compiles rev (isStatic msg.flags) code (makeCodeId codeHash rev msg.flags)
      rw [failed] at compiled
      cases compiled

/-! ## The code map holds what was compiled for its keys -/

def funcsOf (jit : JITImpl) (codeIdentifier : List Char) : Option ExecFunc :=
  (jit.codeMap codeIdentifier).func

variable (codegen) in
inductive CodeMapStep (funcs : List Char → Option ExecFunc) :
    (List Char → Option ExecFunc) → Prop
  | map (codeHash : EvmHash) (rev : Revision) (flags : UInt32) (code : List UInt8) (func : ExecFunc)
      (compiled : codegen rev (isStatic flags) code (makeCodeId codeHash rev flags) = some func) :
      CodeMapStep funcs (Function.update funcs (makeCodeId codeHash rev flags) (some func))
  | reset : CodeMapStep funcs fun _ => none

variable (codegen) in
def StepsCodeMap {α : Type} (run : Session → Option (α × Session)) : Prop :=
  ∀ s a s', run s = some (a, s') → ReflTransGen (CodeMapStep codegen) (funcsOf s.jit) (funcsOf s'.jit)

@[simp] theorem funcsOf_getExecFunc (jit : JITImpl) (codeIdentifier : List Char) :
    funcsOf (getExecFunc jit codeIdentifier).2 = funcsOf jit := by
  funext codeIdentifier'
  by_cases same : codeIdentifier' = codeIdentifier
  · subst same
    simp [funcsOf, getExecFunc]
  · simp [funcsOf, getExecFunc, Function.update_of_ne same]

theorem funcsOf_mapExecFunc (jit : JITImpl) (codeIdentifier : List Char) (func : ExecFunc) :
    funcsOf (mapExecFunc jit codeIdentifier func) =
      Function.update (funcsOf jit) codeIdentifier (some func) := by
  funext codeIdentifier'
  by_cases same : codeIdentifier' = codeIdentifier
  · subst same
    simp [funcsOf, mapExecFunc]
  · simp [funcsOf, mapExecFunc, Function.update_of_ne same]

theorem compile_steps (jit : JITImpl) (rev : Revision) (staticCall : Bool) (code : List UInt8)
    (codeIdentifier : List Char) :
    ReflTransGen (CodeMapStep codegen) (funcsOf jit)
      (funcsOf (compile codegen jit rev staticCall code codeIdentifier).2) := by
  dsimp only [compile]
  split
  · exact .single .reset
  · exact .refl

theorem hostCall_steps {exec : Session → Revision → EvmMessage → EvmHash → List UInt8 →
    Option (EvmResult × Session)}
    (nested : ∀ rev msg codeHash code, StepsCodeMap codegen (fun s => exec s rev msg codeHash code))
    (msg : EvmMessage) : StepsCodeMap codegen (fun s => hostCall table exec s msg) := by
  intro s result s' asked
  rcases hostCall_cases asked with rfl | ⟨rev, msg', codeHash, code, result', ran⟩
  · exact .refl
  · exact nested _ _ _ _ _ _ _ ran

theorem callFunc_steps {rt : RuntimeData}
    (hostSteps : ∀ msg, StepsCodeMap codegen (fun s => host s msg)) :
    StepsCodeMap codegen (fun s => callFunc table host s frame rt request) := by
  intro s out s' called
  rcases callFunc_cases called with rfl | called
  · exact .refl
  obtain ⟨currentMsg, result, s₁, -, asked, rfl⟩ := callV2_cases called
  have answered := hostSteps _ _ _ _ asked
  exact answered

theorem runProgram_steps {rt : RuntimeData}
    (hostSteps : ∀ msg, StepsCodeMap codegen (fun s => host s msg)) (prog : Program) :
    StepsCodeMap codegen (fun s => runProgram table host frame rt prog s) := by
  intro s result s' ran
  exact runProgram_invariant
    (fun s₁ => ReflTransGen (CodeMapStep codegen) (funcsOf s.jit) (funcsOf s₁.jit))
    (fun _ _ _ _ before called => before.trans (callFunc_steps hostSteps _ _ _ called))
    prog s .refl ran

theorem execute_cases_steps (ran : execute table codegen (fuel + 1) s rev msg codeHash code =
    some (result, s')) :
    (∃ func s₁, ReflTransGen (CodeMapStep codegen) (funcsOf s.jit) (funcsOf s₁.jit) ∧
        runFunc table (execute table codegen fuel) s.jit.currentMsg msg
          (RuntimeData.ofMessage msg code) func s₁ = some (result, s')) ∨
      ReflTransGen (CodeMapStep codegen) (funcsOf s.jit) (funcsOf s'.jit) := by
  have looked : funcsOf s.jit = funcsOf (getExecFunc { s.jit with currentMsg := some msg }
      (makeCodeId codeHash rev msg.flags)).2 := by
    rw [funcsOf_getExecFunc]
    rfl
  simp only [execute] at ran
  split at ran
  · exact .inl ⟨_, _, looked ▸ .refl, ran⟩
  · split at ran
    · obtain ⟨-, rfl⟩ := Prod.mk.inj (Option.some.inj ran)
      exact .inr (looked ▸ .refl)
    · split at ran
      case h_1 =>
        obtain ⟨-, rfl⟩ := Prod.mk.inj (Option.some.inj ran)
        rw [looked]
        exact .inr
          (compile_steps _ rev (isStatic msg.flags) code (makeCodeId codeHash rev msg.flags))
      case h_2 func compiled =>
        refine .inl ⟨func, _, ?_, ran⟩
        rw [funcsOf_mapExecFunc, looked]
        exact (compile_steps _ rev (isStatic msg.flags) code (makeCodeId codeHash rev msg.flags)).tail
          (.map codeHash rev msg.flags code func compiled)

theorem execute_steps (fuel : Nat) (rev : Revision) (msg : EvmMessage) (codeHash : EvmHash)
    (code : List UInt8) :
    StepsCodeMap codegen (fun s => execute table codegen fuel s rev msg codeHash code) := by
  induction fuel generalizing rev msg codeHash code with
  | zero =>
    intro s result s' ran
    cases ran
  | succ fuel ih =>
    intro s result s' ran
    rcases execute_cases_steps ran with ⟨func, s₁, entered, run⟩ | early
    · obtain ⟨returnCode, gas, returnData, s₂, program, -, rfl⟩ := runFunc_cases run
      have ranProgram := runProgram_steps (hostCall_steps ih) _ _ _ _ program
      exact entered.trans ranProgram
    · exact early

variable (codegen) in
def Consistent (funcs : List Char → Option ExecFunc) : Prop :=
  ∀ codeIdentifier func, funcs codeIdentifier = some func →
    ∃ codeHash rev flags code, codeIdentifier = makeCodeId codeHash rev flags ∧
      codegen rev (isStatic flags) code codeIdentifier = some func

variable {funcs funcs' : List Char → Option ExecFunc}

theorem Consistent.step (consistent : Consistent codegen funcs)
    (step : CodeMapStep codegen funcs funcs') : Consistent codegen funcs' := by
  cases step with
  | map codeHash rev flags code func compiled =>
    intro codeIdentifier func' found
    by_cases same : codeIdentifier = makeCodeId codeHash rev flags
    · subst same
      rw [Function.update_self, Option.some.injEq] at found
      subst found
      exact ⟨codeHash, rev, flags, code, rfl, compiled⟩
    · rw [Function.update_of_ne same] at found
      exact consistent codeIdentifier func' found
  | reset =>
    intro codeIdentifier func found
    cases found

theorem Consistent.steps (consistent : Consistent codegen funcs)
    (steps : ReflTransGen (CodeMapStep codegen) funcs funcs') : Consistent codegen funcs' := by
  induction steps with
  | refl => exact consistent
  | tail _ step ih => exact ih.step step

theorem Consistent.compiled_for {func : ExecFunc} {flags : UInt32}
    (consistent : Consistent codegen funcs) (found : funcs (makeCodeId codeHash rev flags) = some func) :
    ∃ code, codegen rev (isStatic flags) code (makeCodeId codeHash rev flags) = some func := by
  obtain ⟨codeHash', rev', flags', code, same, compiled⟩ := consistent _ func found
  obtain ⟨-, rfl, static⟩ := makeCodeId_injective same
  rw [← static] at compiled
  exact ⟨code, compiled⟩

variable (table codegen) in
/-- The sessions of the singleton; which depth-0 executions reset the engine for memory is left
open. -/
inductive Reachable : Session → Prop
  | initial : Reachable ⟨JITImpl.initial, []⟩
  | run {s s' : Session} {fuel : Nat} {rev : Revision} {msg : EvmMessage} {codeHash : EvmHash}
      {code : List UInt8} {result : EvmResult} :
      Reachable s → execute table codegen fuel s rev msg codeHash code = some (result, s') →
      Reachable s'
  | setOption {s : Session} (hitThreshold : Nat) :
      Reachable s → Reachable { s with jit := { s.jit with hitThreshold } }
  | checkMemorySize {s : Session} : Reachable s → Reachable { s with jit := resetEngine s.jit }

theorem consistent_of_reachable (reachable : Reachable table codegen s) :
    Consistent codegen (funcsOf s.jit) := by
  induction reachable with
  | initial =>
    intro codeIdentifier func found
    cases found
  | run _ ran ih => exact ih.steps (execute_steps _ _ _ _ _ _ _ _ ran)
  | setOption hitThreshold _ ih => exact ih
  | checkMemorySize _ ih => exact ih.step .reset

theorem compiled_for_of_reachable {func : ExecFunc} (reachable : Reachable table codegen s)
    (found : (s.jit.codeMap (makeCodeId codeHash rev msg.flags)).func = some func) :
    ∃ code, codegen rev (isStatic msg.flags) code (makeCodeId codeHash rev msg.flags) = some func :=
  (consistent_of_reachable reachable).compiled_for found

end Nesting

/-! ## A rejected callee -/

def byteAddress (b : UInt8) : Address := List.Vector.replicate 32 b

def outerMsg : EvmMessage := ⟨byteAddress 1, byteAddress 0, DataWord.zero, [], 1000, 0, evmCall, 0⟩

def plainCall (b : UInt8) : CallRequest := ⟨evmCall, 100, byteAddress b, DataWord.zero, []⟩

def twoCalls : ExecFunc := fun rt =>
  .call (plainCall 2) fun _ _ => .call (plainCall 3) fun _ _ => .finish .stop rt.gas []

def nestingTable : FnTable :=
  ⟨fun _ => 0, fun msg =>
    if msg.address = byteAddress 2 then .run .aion msg (List.Vector.replicate 32 2) [0] id
    else .answer ⟨0, msg.gas, []⟩⟩

/-- Under a hit threshold of 1 the second call of `twoCalls` goes out as if `02..02` made it. -/
theorem rejected_callee_misroutes_call :
    ((execute nestingTable (fun _ _ _ _ => some twoCalls) 2
        ⟨{ JITImpl.initial with hitThreshold := 1 }, []⟩ .aion outerMsg
        (List.Vector.replicate 32 1) []).bind fun (_, s) =>
      execute nestingTable (fun _ _ _ _ => some twoCalls) 2 s .aion outerMsg
        (List.Vector.replicate 32 1) []).map
      (fun (_, s) => s.sent.map fun e => (e.frame.address, e.msg.caller, e.msg.depth)) =
    some [(byteAddress 1, byteAddress 1, 1), (byteAddress 1, byteAddress 2, 2)] := by
  decide +kernel

end AionFastVM.Jit
