import AionFastVM.Jit.NestedExecute

/-!
# Static calls

Compiled code changes state only through `evm.sstore`, `evm.selfdestruct`, `evm.log` and `call`;
every other host function `JITImpl` resolves reads.
-/

namespace AionFastVM.Jit
open AionFastVM.Jni

inductive HostWrite where
  | setStorage
  | selfdestruct
  | log
  | call (kind : Int32)
  deriving DecidableEq, Repr

def hostWrites : Instruction → List HostWrite
  | .sstore => [.setStorage]
  | .selfdestruct => [.selfdestruct]
  | .log _ => [.log]
  | inst => (callKind inst).toList.map .call

/-- The instructions whose code the loop of `compileBasicBlock` emits, up to the first it refuses. -/
def emittedFrom (rev : Revision) (staticCall : Bool) (code : List UInt8) (block : BasicBlock)
    (it : Nat) : List Instruction :=
  if it < block.endIdx then
    let inst := instAt code it
    if !validIn rev staticCall inst then []
    else inst :: emittedFrom rev staticCall code block (compileNext code block.endIdx it)
  else []
termination_by block.endIdx - it
decreasing_by
  have progress := lt_compileNext code block.endIdx it
  omega

def emitted (rev : Revision) (staticCall : Bool) (code : List UInt8) (block : BasicBlock) :
    List Instruction :=
  emittedFrom rev staticCall code block block.firstInstrIdx

theorem validIn_of_mem_emittedFrom {rev : Revision} {staticCall : Bool} {code : List UInt8}
    {block : BasicBlock} {it : Nat} {inst : Instruction}
    (member : inst ∈ emittedFrom rev staticCall code block it) :
    validIn rev staticCall inst = true := by
  fun_induction emittedFrom rev staticCall code block it with
  | case1 it inside current refused => simp at member
  | case2 it inside current valid ih =>
    rcases List.mem_cons.mp member with rfl | later
    · simpa using valid
    · exact ih later
  | case3 it outside => simp at member

-- SSTORE is refused in a static call, so its block emits no code for it.
example : emitted .aion true [0x55] ⟨0, 1⟩ = [] ∧ emitted .aion false [0x55] ⟨0, 1⟩ = [.sstore] := by
  decide +kernel

theorem hostWrites_of_static {rev : Revision} {inst : Instruction}
    (valid : validIn rev true inst = true) :
    ∀ write ∈ hostWrites inst, ∃ kind, write = .call kind ∧ callKind inst = some kind ∧
      kind ≠ evmCreate := by
  intro write member
  cases inst with
  | sstore | selfdestruct | create | log => simp [validIn] at valid
  | call | callcode | delegatecall | staticcall =>
    simp only [hostWrites, callKind, Option.toList_some, List.map_cons, List.map_nil,
      List.mem_singleton] at member
    exact ⟨_, member, rfl, by decide⟩
  | _ => simp [hostWrites, callKind] at member

section Nesting
variable {table : FnTable} {codegen : Revision → Bool → List UInt8 → List Char → Option ExecFunc}

def Session.StaticSent (s : Session) : Prop :=
  ∀ e ∈ s.sent, isStatic e.frame.flags = true → isStatic e.msg.flags = true

def Session.CurrentStatic (s : Session) : Prop :=
  ∃ currentMsg, s.jit.currentMsg = some currentMsg ∧ isStatic currentMsg.flags = true

/-- A host that runs a static call as a static execution, as the bridge does: `encode_message`,
`ExecutionContext` and `parse_context` carry the flags across. -/
def FnTable.RunsStatic (table : FnTable) : Prop :=
  ∀ msg rev msg' codeHash code reply, table.call msg = .run rev msg' codeHash code reply →
    isStatic msg.flags = true → isStatic msg'.flags = true

def StaysStatic {α : Type} (static : Bool) (run : Session → Option (α × Session)) : Prop :=
  ∀ s a s', run s = some (a, s') → s.StaticSent →
    s'.StaticSent ∧ (static = true → s.CurrentStatic → s'.CurrentStatic)

structure RunningStatic (frame : EvmMessage) (s : Session) : Prop where
  staticSent : s.StaticSent
  current : isStatic frame.flags = true → s.CurrentStatic

variable {host : Session → EvmMessage → Option (EvmResult × Session)} {frame : EvmMessage}
  {s s' : Session} {request : CallRequest} {out : Int64 × List UInt8}

theorem Entered.staticSent {msg : EvmMessage} (entered : Entered msg s s')
    (staticSent : s.StaticSent) : s'.StaticSent :=
  fun e member => staticSent e (entered.sent ▸ member)

theorem Entered.currentStatic {msg : EvmMessage} (entered : Entered msg s s')
    (static : isStatic msg.flags = true) : s'.CurrentStatic :=
  ⟨msg, entered.current, static⟩

theorem staticSent_record (staticSent : s.StaticSent) {currentMsg : EvmMessage}
    (current : isStatic frame.flags = true → isStatic currentMsg.flags = true) :
    Session.StaticSent
      { s with sent := s.sent ++ [⟨frame, request, request.message currentMsg⟩] } := by
  intro e member static
  rcases List.mem_append.mp member with old | added
  · exact staticSent e old static
  · rw [List.mem_singleton.mp added] at static ⊢
    exact isStatic_callMessage (current static) _ _ _ _ _

theorem callFunc_runningStatic {rt : RuntimeData}
    (stays : ∀ msg, StaysStatic (isStatic msg.flags) (fun s => host s msg))
    (running : RunningStatic frame s) (called : callFunc table host s frame rt request = some (out, s')) :
    RunningStatic frame s' := by
  rcases callFunc_cases called with rfl | called
  · exact running
  obtain ⟨currentMsg, result, s₁, current, asked, rfl⟩ := callV2_cases called
  -- a static frame calls from a static current message, so the message it sends is static
  have fromStatic : isStatic frame.flags = true → isStatic currentMsg.flags = true := by
    intro static
    obtain ⟨m, current', staticM⟩ := running.current static
    rw [current, Option.some.injEq] at current'
    exact current' ▸ staticM
  obtain ⟨staticSent, keeps⟩ := stays _ _ _ _ asked (staticSent_record running.staticSent fromStatic)
  exact ⟨staticSent, fun static =>
    keeps (isStatic_callMessage (fromStatic static) _ _ _ _ _) ⟨currentMsg, current, fromStatic static⟩⟩

theorem hostCall_staysStatic (runs : table.RunsStatic)
    {exec : Session → Revision → EvmMessage → EvmHash → List UInt8 → Option (EvmResult × Session)}
    (nested : ∀ rev msg codeHash code, StaysStatic (isStatic msg.flags)
      (fun s => exec s rev msg codeHash code))
    (msg : EvmMessage) : StaysStatic (isStatic msg.flags) (fun s => hostCall table exec s msg) := by
  intro s result s' asked staticSent
  unfold hostCall at asked
  split at asked
  · obtain ⟨-, rfl⟩ := Prod.mk.inj (Option.some.inj asked)
    exact ⟨staticSent, fun _ current => current⟩
  case h_2 rev msg' codeHash code reply answered =>
    obtain ⟨⟨nestedResult, s₁⟩, ran, replied⟩ := Option.map_eq_some_iff.mp asked
    obtain ⟨-, rfl⟩ := Prod.mk.inj replied
    obtain ⟨staticSent', keeps⟩ := nested rev msg' codeHash code s nestedResult s₁ ran staticSent
    exact ⟨staticSent', fun static => keeps (runs msg rev msg' codeHash code reply answered static)⟩

theorem execute_staysStatic (runs : table.RunsStatic) (fuel : Nat) (rev : Revision)
    (msg : EvmMessage) (codeHash : EvmHash) (code : List UInt8) :
    StaysStatic (isStatic msg.flags) (fun s => execute table codegen fuel s rev msg codeHash code) := by
  induction fuel generalizing rev msg codeHash code with
  | zero =>
    intro s result s' ran
    cases ran
  | succ fuel ih =>
    intro s result s' ran staticSent
    rcases execute_cases ran with ⟨func, s₁, entered, run⟩ | ⟨-, -, entered⟩ | ⟨-, -, entered⟩
    · obtain ⟨returnCode, gas, returnData, s₂, program, -, rfl⟩ := runFunc_cases run
      -- the frame's run starts with its own message current, and `execute` puts the old one back
      have start : RunningStatic msg s₁ := ⟨entered.staticSent staticSent, entered.currentStatic⟩
      have running := runProgram_invariant (RunningStatic msg)
        (fun _ _ _ _ running called =>
          callFunc_runningStatic (hostCall_staysStatic runs ih) running called)
        _ s₁ start program
      exact ⟨running.staticSent, fun _ current => current⟩
    · exact ⟨entered.staticSent staticSent, fun static _ => entered.currentStatic static⟩
    · exact ⟨entered.staticSent staticSent, fun static _ => entered.currentStatic static⟩

end Nesting

end AionFastVM.Jit
