import AionFastVM.Jit.Push
import AionFastVM.Jit.Instruction
import Mathlib.Logic.Relation
import Mathlib.Logic.Relator
import Mathlib.Order.Basic

/-!
# Basic blocks and the jump table

`createBasicBlocks`, `compileBasicBlock` and `resolveJumps`. The main function lays out Entry, the
code blocks, then Stop, JumpTable, Abort and Exit; `nextBlock` is that layout.
-/

namespace AionFastVM.Library

open Relation

variable {α : Type} {r : α → α → Prop}

theorem reflTransGen_of_step_of_ne (unique : Relator.RightUnique r) {a b c : α}
    (walk : ReflTransGen r a b) (step : r a c) (moved : a ≠ b) : ReflTransGen r c b := by
  rcases walk.cases_head with same | ⟨d, first, rest⟩
  · exact absurd same moved
  · rwa [unique step first]

variable [Preorder α]

theorem le_of_reflTransGen (increasing : ∀ a b, r a b → a < b) {a b : α}
    (walk : ReflTransGen r a b) : a ≤ b := by
  induction walk with
  | refl => exact le_rfl
  | tail _ step ih => exact le_trans ih (increasing _ _ step).le

theorem le_of_reflTransGen_of_lt (unique : Relator.RightUnique r)
    (increasing : ∀ a b, r a b → a < b) {a b c d : α} (toB : ReflTransGen r a b)
    (toC : ReflTransGen r a c) (step : r b d) (below : c < d) : c ≤ b := by
  rcases ReflTransGen.total_of_right_unique unique toB toC with after | before
  · by_cases same : b = c
    · exact same ▸ le_rfl
    · -- c comes after b, so at or after b's successor
      have late := le_of_reflTransGen increasing (reflTransGen_of_step_of_ne unique after step same)
      exact absurd (lt_of_lt_of_le below late) (lt_irrefl c)
  · exact le_of_reflTransGen increasing before

end AionFastVM.Library

namespace AionFastVM.Jit
open AionFastVM.Library Relation

def NextInstr (code : List UInt8) (curr next : Nat) : Prop :=
  curr < code.length ∧ next = skipPushDataAndGetNext code curr

def IsBoundary (code : List UInt8) (i : Nat) : Prop := ReflTransGen (NextInstr code) 0 i

def instAt (code : List UInt8) (i : Nat) : Instruction := Instruction.ofByte (code.getD i 0)

def IsJumpdest (code : List UInt8) (i : Nat) : Prop := i < code.length ∧ instAt code i = .jumpdest

def endsFlow : Instruction → Bool
  | .jump | .«return» | .revert | .stop | .selfdestruct => true
  | _ => false

def FallsThrough (code : List UInt8) (curr next : Nat) : Prop :=
  NextInstr code curr next ∧ next < code.length ∧ endsFlow (instAt code curr) = false

/-- An instruction that control reaches from offset 0 or from a JUMPDEST without a jump. -/
def Live (code : List UInt8) (i : Nat) : Prop :=
  ∃ start, (start = 0 ∨ IsBoundary code start ∧ IsJumpdest code start) ∧ start < code.length ∧
    ReflTransGen (FallsThrough code) start i

/-! ## `createBasicBlocks` -/

structure BasicBlock where
  firstInstrIdx : Nat
  endIdx : Nat
  deriving DecidableEq, Repr

def createBasicBlocksFrom (code : List UInt8) (begin curr : Nat) (isDead : Bool) :
    List BasicBlock :=
  if _ : curr < code.length then
    let next := skipPushDataAndGetNext code curr
    let inst := instAt code curr
    if isDead && inst != .jumpdest then createBasicBlocksFrom code begin next true
    else
      let begin := if isDead then curr else begin
      let isDead := endsFlow inst
      let isEnd := isDead || inst == .jumpi || next == code.length || instAt code next == .jumpdest
      if isEnd then ⟨begin, next⟩ :: createBasicBlocksFrom code next next isDead
      else createBasicBlocksFrom code begin next isDead
  else []
termination_by code.length - curr
decreasing_by
  all_goals
    have progress := (skipPushDataAndGetNext_le ‹curr < code.length›).1
    omega

def createBasicBlocks (code : List UInt8) : List BasicBlock := createBasicBlocksFrom code 0 0 false

/-! ## `compileBasicBlock` and `resolveJumps` -/

inductive ReturnCode where
  | stop
  | «return»
  | revert
  | outOfGas
  deriving DecidableEq, Repr

inductive Terminator where
  | none
  | jump
  | jumpi
  | exit (code : ReturnCode)
  deriving DecidableEq, Repr

open Revision in
def instTerminator (rev : Revision) (staticCall : Bool) (inst : Instruction) : Option Terminator :=
  if !validIn rev staticCall inst then some (.exit .outOfGas)
  else match inst with
    | .jump => some .jump
    | .jumpi => some .jumpi
    | .«return» => some (.exit .«return»)
    | .revert => some (.exit .revert)
    | .stop | .selfdestruct => some (.exit .stop)
    | _ => none

def compileNext (code : List UInt8) (endIdx it : Nat) : Nat :=
  let op := code.getD it 0
  if 0x60 ≤ op ∧ op ≤ 0x7f then (readPushData code it endIdx).2 + 1 else it + 1

theorem le_readPushBytes (code : List UInt8) (endIdx width : Nat) :
    ∀ remaining cursor value, cursor ≤ (readPushBytes code endIdx width remaining cursor value).2 := by
  intro remaining
  induction remaining with
  | zero => intro cursor value; exact le_rfl
  | succ remaining ih =>
    intro cursor value
    simp only [readPushBytes]
    split_ifs <;> exact le_trans (by omega) (ih _ _)

theorem lt_compileNext (code : List UInt8) (endIdx it : Nat) : it < compileNext code endIdx it := by
  have cursor := le_readPushBytes code endIdx (pushWidth (numPushBytes (code.getD it 0)))
    (numPushBytes (code.getD it 0)) (it + 1) 0
  simp only [compileNext, readPushData]
  split <;> omega

def compileBasicBlockFrom (rev : Revision) (staticCall : Bool) (code : List UInt8)
    (block : BasicBlock) (it : Nat) : List (Nat × Nat) × Terminator :=
  if it < block.endIdx then
    let inst := instAt code it
    -- the JUMPDEST case registers the block under the offset of its first instruction
    let cases := if inst = .jumpdest then [(block.firstInstrIdx, block.firstInstrIdx)] else []
    if !validIn rev staticCall inst then (cases, .exit .outOfGas)
    else
      let (rest, term) := compileBasicBlockFrom rev staticCall code block
        (compileNext code block.endIdx it)
      (cases ++ rest, (instTerminator rev staticCall inst).getD term)
  else ([], .none)
termination_by block.endIdx - it
decreasing_by
  have progress := lt_compileNext code block.endIdx it
  omega

def compileBasicBlock (rev : Revision) (staticCall : Bool) (code : List UInt8)
    (block : BasicBlock) : List (Nat × Nat) × Terminator :=
  compileBasicBlockFrom rev staticCall code block block.firstInstrIdx

inductive Target where
  | block (firstInstrIdx : Nat)
  | stop
  | abort
  deriving DecidableEq, Repr

def nextBlock (blocks : List BasicBlock) (k : Nat) : Target :=
  match blocks[k + 1]? with
  | some block => .block block.firstInstrIdx
  | none => .stop

def switchTarget (cases : List (Nat × Nat)) (dest : Nat) : Target :=
  match cases.lookup dest with
  | some firstInstrIdx => .block firstInstrIdx
  | none => .abort

inductive Branch where
  | br (target : Target)
  | condBr (taken notTaken : Target)
  | toTable (notTaken : Option Target)
  | exit (code : ReturnCode)
  deriving DecidableEq, Repr

def resolveJump (cases : List (Nat × Nat)) (blocks : List BasicBlock) (k : Nat)
    (constDest : Option Nat) : Terminator → Branch
  | .none => .br (nextBlock blocks k)
  | .jump =>
    match constDest with
    | some dest => .br (switchTarget cases dest)
    | none => .toTable none
  | .jumpi =>
    match constDest with
    | some dest => .condBr (switchTarget cases dest) (nextBlock blocks k)
    | none => .toTable (some (nextBlock blocks k))
  | .exit code => .exit code

def Branch.target (cases : List (Nat × Nat)) (dest : Nat) (taken : Bool) : Branch → Option Target
  | .br target => some target
  | .condBr onTrue onFalse => some (if taken then onTrue else onFalse)
  | .toTable none => some (switchTarget cases dest)
  | .toTable (some onFalse) => some (if taken then switchTarget cases dest else onFalse)
  | .exit _ => none

def compileBlocks (rev : Revision) (staticCall : Bool) (code : List UInt8) :
    List (List (Nat × Nat) × Terminator) :=
  (createBasicBlocks code).map (compileBasicBlock rev staticCall code)

def jumpTableCases (rev : Revision) (staticCall : Bool) (code : List UInt8) : List (Nat × Nat) :=
  ((compileBlocks rev staticCall code).map Prod.fst).flatten

def resolveJumps (rev : Revision) (staticCall : Bool) (code : List UInt8)
    (constDest : Nat → Option Nat) : List Branch :=
  let cases := jumpTableCases rev staticCall code
  (compileBlocks rev staticCall code).zipIdx.map fun (compiled, k) =>
    resolveJump cases (createBasicBlocks code) k (constDest k) compiled.2

section Walk
variable {code : List UInt8}

theorem nextInstr_unique (code : List UInt8) : Relator.RightUnique (NextInstr code) :=
  fun _ _ _ first second => first.2.trans second.2.symm

theorem nextInstr_lt (code : List UInt8) : ∀ a b, NextInstr code a b → a < b :=
  fun _ _ step => step.2 ▸ (skipPushDataAndGetNext_le step.1).1

theorem nextInstr_next {curr : Nat} (inside : curr < code.length) :
    NextInstr code curr (skipPushDataAndGetNext code curr) := ⟨inside, rfl⟩

theorem le_of_reaches {a b : Nat} (walk : ReflTransGen (NextInstr code) a b) : a ≤ b :=
  le_of_reflTransGen (nextInstr_lt code) walk

theorem reaches_of_ne {curr b : Nat} (walk : ReflTransGen (NextInstr code) curr b)
    (inside : curr < code.length) (moved : curr ≠ b) :
    ReflTransGen (NextInstr code) (skipPushDataAndGetNext code curr) b :=
  reflTransGen_of_step_of_ne (nextInstr_unique code) walk (nextInstr_next inside) moved

theorem le_of_reaches_of_lt {a b c : Nat} (toB : ReflTransGen (NextInstr code) a b)
    (toC : ReflTransGen (NextInstr code) a c) (inside : b < code.length)
    (below : c < skipPushDataAndGetNext code b) : c ≤ b :=
  le_of_reflTransGen_of_lt (nextInstr_unique code) (nextInstr_lt code) toB toC
    (nextInstr_next inside) below

end Walk

structure ScanInv (code : List UInt8) (begin curr : Nat) (isDead : Bool) : Prop where
  boundary : IsBoundary code curr
  le_length : curr ≤ code.length
  reaches : isDead = false → ReflTransGen (NextInstr code) begin curr ∧ IsBoundary code begin
  interior : isDead = false → ∀ j, ReflTransGen (NextInstr code) begin j → j < curr →
    endsFlow (instAt code j) = false ∧ instAt code j ≠ .jumpi ∧ (j ≠ begin → ¬IsJumpdest code j)
  jumpdest_begins : isDead = false → IsJumpdest code curr → begin = curr
  pending : isDead = false → begin < curr → curr < code.length

theorem scanInv_start (code : List UInt8) : ScanInv code 0 0 false where
  boundary := .refl
  le_length := Nat.zero_le _
  reaches _ := ⟨.refl, .refl⟩
  interior _ _ _ below := absurd below (Nat.not_lt_zero _)
  jumpdest_begins _ _ := rfl
  pending _ below := absurd below (Nat.lt_irrefl 0)

section Step
variable {code : List UInt8} {begin curr : Nat} {isDead : Bool}

theorem ScanInv.begin_le (inv : ScanInv code begin curr isDead) :
    (if isDead then curr else begin) ≤ curr := by
  cases isDead with
  | true => exact le_rfl
  | false => exact le_of_reaches (inv.reaches rfl).1

theorem ScanInv.skip (inv : ScanInv code begin curr true) (inside : curr < code.length) :
    ScanInv code begin (skipPushDataAndGetNext code curr) true where
  boundary := inv.boundary.tail (nextInstr_next inside)
  le_length := (skipPushDataAndGetNext_le inside).2
  reaches := by simp
  interior := by simp
  jumpdest_begins := by simp
  pending := by simp

theorem ScanInv.close (inv : ScanInv code begin curr isDead) (inside : curr < code.length) :
    ScanInv code (skipPushDataAndGetNext code curr) (skipPushDataAndGetNext code curr)
      (endsFlow (instAt code curr)) where
  boundary := inv.boundary.tail (nextInstr_next inside)
  le_length := (skipPushDataAndGetNext_le inside).2
  reaches _ := ⟨.refl, inv.boundary.tail (nextInstr_next inside)⟩
  interior _ _ walk below := absurd (le_of_reaches walk) (Nat.not_le.mpr below)
  jumpdest_begins _ _ := rfl
  pending _ below := absurd below (Nat.lt_irrefl _)

theorem ScanInv.toCurr (inv : ScanInv code begin curr isDead) :
    ReflTransGen (NextInstr code) (if isDead then curr else begin) curr ∧
      IsBoundary code (if isDead then curr else begin) := by
  cases isDead with
  | true => exact ⟨.refl, inv.boundary⟩
  | false => exact inv.reaches rfl

theorem ScanInv.startsHere (inv : ScanInv code begin curr isDead) (jumpdest : IsJumpdest code curr) :
    (if isDead then curr else begin) = curr := by
  cases isDead with
  | true => rfl
  | false => exact inv.jumpdest_begins rfl jumpdest

theorem ScanInv.interior_or_eq (inv : ScanInv code begin curr isDead) (inside : curr < code.length)
    {j : Nat} (walk : ReflTransGen (NextInstr code) (if isDead then curr else begin) j)
    (below : j < skipPushDataAndGetNext code curr) :
    j = curr ∨ (endsFlow (instAt code j) = false ∧ instAt code j ≠ .jumpi ∧
      (j ≠ (if isDead then curr else begin) → ¬IsJumpdest code j)) := by
  rcases Nat.lt_or_eq_of_le (le_of_reaches_of_lt inv.toCurr.1 walk inside below) with before | same
  · -- an instruction before `curr` is in the block only when the code was live
    cases isDead with
    | true => exact absurd (le_of_reaches walk) (Nat.not_le.mpr before)
    | false => exact Or.inr (inv.interior rfl j walk before)
  · exact Or.inl same

theorem ScanInv.extend (inv : ScanInv code begin curr isDead) (inside : curr < code.length)
    (flows : endsFlow (instAt code curr) = false) (noBranch : instAt code curr ≠ .jumpi)
    (notLast : skipPushDataAndGetNext code curr ≠ code.length)
    (notBefore : instAt code (skipPushDataAndGetNext code curr) ≠ .jumpdest) :
    ScanInv code (if isDead then curr else begin) (skipPushDataAndGetNext code curr) false := by
  have step : NextInstr code curr (skipPushDataAndGetNext code curr) := nextInstr_next inside
  refine ⟨inv.boundary.tail step, (skipPushDataAndGetNext_le inside).2,
    fun _ => ⟨inv.toCurr.1.tail step, inv.toCurr.2⟩, fun _ j walk below => ?_,
    fun _ jumpdest => absurd jumpdest.2 notBefore,
    fun _ _ => lt_of_le_of_ne (skipPushDataAndGetNext_le inside).2 notLast⟩
  rcases inv.interior_or_eq inside walk below with rfl | earlier
  · exact ⟨flows, noBranch, fun moved jumpdest => moved (inv.startsHere jumpdest).symm⟩
  · exact earlier

structure BlockShape (code : List UInt8) (block : BasicBlock) : Prop where
  boundary : IsBoundary code block.firstInstrIdx
  reaches_end : ReflTransGen (NextInstr code) block.firstInstrIdx block.endIdx
  end_le : block.endIdx ≤ code.length
  inner : ∀ j, ReflTransGen (NextInstr code) block.firstInstrIdx j → j < code.length →
    skipPushDataAndGetNext code j < block.endIdx →
      endsFlow (instAt code j) = false ∧ instAt code j ≠ .jumpi
  single_jumpdest : ∀ j, ReflTransGen (NextInstr code) block.firstInstrIdx j → j < block.endIdx →
    j ≠ block.firstInstrIdx → ¬IsJumpdest code j

theorem ScanInv.blockShape (inv : ScanInv code begin curr isDead) (inside : curr < code.length) :
    BlockShape code ⟨if isDead then curr else begin, skipPushDataAndGetNext code curr⟩ where
  boundary := inv.toCurr.2
  reaches_end := inv.toCurr.1.tail (nextInstr_next inside)
  end_le := (skipPushDataAndGetNext_le inside).2
  inner j walk inCode notLast := by
    have below := lt_trans (skipPushDataAndGetNext_le inCode).1 notLast
    rcases inv.interior_or_eq inside walk below with rfl | earlier
    · exact absurd notLast (Nat.lt_irrefl _)
    · exact ⟨earlier.1, earlier.2.1⟩
  single_jumpdest j walk below moved := by
    rcases inv.interior_or_eq inside walk below with rfl | earlier
    · exact fun jumpdest => moved (inv.startsHere jumpdest).symm
    · exact earlier.2.2 moved

end Step

section Scan
variable {code : List UInt8}

theorem continues_iff {curr : Nat} :
    ¬(endsFlow (instAt code curr) || instAt code curr == .jumpi ||
        skipPushDataAndGetNext code curr == code.length ||
        instAt code (skipPushDataAndGetNext code curr) == .jumpdest) = true ↔
      endsFlow (instAt code curr) = false ∧ instAt code curr ≠ .jumpi ∧
        skipPushDataAndGetNext code curr ≠ code.length ∧
        instAt code (skipPushDataAndGetNext code curr) ≠ .jumpdest := by
  simp only [Bool.or_eq_true, beq_iff_eq, not_or, Bool.not_eq_true, and_assoc, ne_eq]

theorem scan_sorted {begin curr : Nat} {isDead : Bool} :
    ScanInv code begin curr isDead →
    (∀ block ∈ createBasicBlocksFrom code begin curr isDead,
      (if isDead then curr else begin) ≤ block.firstInstrIdx ∧
        block.firstInstrIdx < block.endIdx ∧ block.endIdx ≤ code.length) ∧
    (createBasicBlocksFrom code begin curr isDead).Pairwise
      (fun a b => a.endIdx ≤ b.firstInstrIdx) := by
  fun_induction createBasicBlocksFrom code begin curr isDead with
  | case1 begin curr isDead inside next inst dead ih =>
    intro inv
    have deadTrue : isDead = true := by simp_all
    subst deadTrue
    obtain ⟨bounds, sorted⟩ := ih (inv.skip inside)
    have progress := (skipPushDataAndGetNext_le inside).1
    refine ⟨fun block member => ?_, sorted⟩
    have later := bounds block member
    simp only [if_true] at later ⊢
    exact ⟨by omega, later.2⟩
  | case2 begin curr isDead inside next inst live begin' isDead' isEnd closes ih =>
    intro inv
    obtain ⟨bounds, sorted⟩ := ih (inv.close inside)
    have first := inv.begin_le
    have progress := skipPushDataAndGetNext_le inside
    have after : ∀ block ∈ createBasicBlocksFrom code next next isDead', next ≤ block.firstInstrIdx ∧
        block.firstInstrIdx < block.endIdx ∧ block.endIdx ≤ code.length := by
      intro block member
      simpa using bounds block member
    refine ⟨fun block member => ?_,
      List.pairwise_cons.mpr ⟨fun block member => (after block member).1, sorted⟩⟩
    rcases List.mem_cons.mp member with rfl | later
    · exact ⟨le_rfl, lt_of_le_of_lt (show begin' ≤ curr from first) progress.1, progress.2⟩
    · have := after block later
      exact ⟨by omega, this.2⟩
  | case3 begin curr isDead inside next inst live begin' isDead' isEnd continues ih =>
    intro inv
    obtain ⟨flows, noBranch, notLast, notBefore⟩ := continues_iff.mp continues
    have extended := inv.extend inside flows noBranch notLast notBefore
    have deadFalse : isDead' = false := flows
    simp only [deadFalse] at ih ⊢
    obtain ⟨bounds, sorted⟩ := ih extended
    exact ⟨fun block member => by simpa [begin'] using bounds block member, sorted⟩
  | case4 => intro _; simp

theorem createBasicBlocksFrom_of_le {begin curr : Nat} {isDead : Bool} (atEnd : code.length ≤ curr) :
    createBasicBlocksFrom code begin curr isDead = [] := by
  rw [createBasicBlocksFrom, dif_neg (Nat.not_lt.mpr atEnd)]

theorem scan_blockShape {begin curr : Nat} {isDead : Bool} :
    ScanInv code begin curr isDead →
    ∀ block ∈ createBasicBlocksFrom code begin curr isDead, BlockShape code block := by
  fun_induction createBasicBlocksFrom code begin curr isDead with
  | case1 begin curr isDead inside next inst dead ih =>
    intro inv
    have deadTrue : isDead = true := by simp_all
    subst deadTrue
    exact ih (inv.skip inside)
  | case2 begin curr isDead inside next inst live begin' isDead' isEnd closes ih =>
    intro inv block member
    rcases List.mem_cons.mp member with rfl | later
    · exact inv.blockShape inside
    · exact ih (inv.close inside) block later
  | case3 begin curr isDead inside next inst live begin' isDead' isEnd continues ih =>
    intro inv
    obtain ⟨flows, noBranch, notLast, notBefore⟩ := continues_iff.mp continues
    have deadFalse : isDead' = false := flows
    simp only [deadFalse] at ih ⊢
    exact ih (inv.extend inside flows noBranch notLast notBefore)
  | case4 => intro _; simp

theorem scan_head {begin curr : Nat} {isDead : Bool} :
    ScanInv code begin curr isDead → isDead = false → curr < code.length →
    ∃ e, curr < e ∧ (createBasicBlocksFrom code begin curr isDead).head? = some ⟨begin, e⟩ := by
  fun_induction createBasicBlocksFrom code begin curr isDead with
  | case1 begin curr isDead inside next inst dead ih =>
    intro _ live _
    simp [live] at dead
  | case2 begin curr isDead inside next inst live begin' isDead' isEnd closes ih =>
    intro _ live _
    subst live
    exact ⟨next, (skipPushDataAndGetNext_le inside).1, rfl⟩
  | case3 begin curr isDead inside next inst live begin' isDead' isEnd continues ih =>
    intro inv live _
    subst live
    obtain ⟨flows, noBranch, notLast, notBefore⟩ := continues_iff.mp continues
    have deadFalse : isDead' = false := flows
    simp only [deadFalse] at ih ⊢
    have progress := skipPushDataAndGetNext_le inside
    obtain ⟨e, after, head⟩ := ih (inv.extend inside flows noBranch notLast notBefore) trivial
      (lt_of_le_of_ne progress.2 notLast)
    exact ⟨e, lt_trans progress.1 after, head⟩
  | case4 begin curr isDead outside =>
    intro _ _ inside
    exact absurd inside outside

def LiveFrom (code : List UInt8) (curr : Nat) (isDead : Bool) (i : Nat) : Prop :=
  ∃ start, ReflTransGen (NextInstr code) curr start ∧ start < code.length ∧
    ((start = curr ∧ isDead = false) ∨ IsJumpdest code start) ∧
    ReflTransGen (FallsThrough code) start i

theorem LiveFrom.skip {curr i : Nat} (live : LiveFrom code curr true i) (inside : curr < code.length)
    (notJumpdest : ¬IsJumpdest code curr) : LiveFrom code (skipPushDataAndGetNext code curr) true i := by
  obtain ⟨start, walk, inCode, source, path⟩ := live
  have jumpdest : IsJumpdest code start := by simpa using source
  have moved : curr ≠ start := fun same => notJumpdest (same ▸ jumpdest)
  exact ⟨start, reaches_of_ne walk inside moved, inCode, Or.inr jumpdest, path⟩

theorem LiveFrom.step {curr i : Nat} {isDead : Bool} (live : LiveFrom code curr isDead i)
    (inside : curr < code.length) :
    i = curr ∨ LiveFrom code (skipPushDataAndGetNext code curr) (endsFlow (instAt code curr)) i := by
  obtain ⟨start, walk, inCode, source, path⟩ := live
  by_cases here : start = curr
  · subst here
    rcases path.cases_head with same | ⟨next, first, rest⟩
    · exact Or.inl same.symm
    · obtain ⟨⟨_, nextEq⟩, nextInside, flows⟩ := first
      subst nextEq
      exact Or.inr ⟨_, .refl, nextInside, Or.inl ⟨rfl, flows⟩, rest⟩
  · have jumpdest : IsJumpdest code start := by
      rcases source with ⟨same, _⟩ | jumpdest
      · exact absurd same here
      · exact jumpdest
    exact Or.inr ⟨start, reaches_of_ne walk inside (Ne.symm here), inCode, Or.inr jumpdest, path⟩

theorem scan_covers {begin curr : Nat} {isDead : Bool} :
    ScanInv code begin curr isDead → ∀ i, LiveFrom code curr isDead i →
    ∃ block ∈ createBasicBlocksFrom code begin curr isDead, block.firstInstrIdx ≤ i ∧
      i < block.endIdx ∧ (IsJumpdest code i → block.firstInstrIdx = i) := by
  fun_induction createBasicBlocksFrom code begin curr isDead with
  | case1 begin curr isDead inside next inst dead ih =>
    intro inv i live
    have deadTrue : isDead = true := by simp_all
    subst deadTrue
    have notJumpdest : ¬IsJumpdest code curr := fun jumpdest => by
      simp only [Bool.true_and, bne_iff_ne, ne_eq] at dead
      exact dead jumpdest.2
    exact ih (inv.skip inside) i (live.skip inside notJumpdest)
  | case2 begin curr isDead inside next inst live begin' isDead' isEnd closes ih =>
    intro inv i reached
    rcases reached.step inside with rfl | later
    · exact ⟨_, List.mem_cons_self, inv.begin_le, (skipPushDataAndGetNext_le inside).1,
        inv.startsHere⟩
    · obtain ⟨block, member, facts⟩ := ih (inv.close inside) i later
      exact ⟨block, List.mem_cons_of_mem _ member, facts⟩
  | case3 begin curr isDead inside next inst live begin' isDead' isEnd continues ih =>
    intro inv i reached
    obtain ⟨flows, noBranch, notLast, notBefore⟩ := continues_iff.mp continues
    have extended := inv.extend inside flows noBranch notLast notBefore
    have deadFalse : isDead' = false := flows
    simp only [deadFalse] at ih ⊢
    rcases reached.step inside with rfl | later
    · -- `curr` is in the block in progress, which the scan closes later
      have progress := skipPushDataAndGetNext_le inside
      obtain ⟨e, after, head⟩ := scan_head extended rfl (lt_of_le_of_ne progress.2 notLast)
      exact ⟨_, List.mem_of_mem_head? head, inv.begin_le, lt_trans progress.1 after,
        inv.startsHere⟩
    · rw [flows] at later
      exact ih extended i later
  | case4 begin curr isDead outside =>
    intro _ i reached
    obtain ⟨start, walk, inCode, _⟩ := reached
    exact absurd (lt_of_le_of_lt (le_of_reaches walk) inCode) outside

def FallsOff (code : List UInt8) (block : BasicBlock) : Prop :=
  ∀ j, ReflTransGen (NextInstr code) block.firstInstrIdx j → NextInstr code j block.endIdx →
    endsFlow (instAt code j) = false

theorem scan_follows {begin curr : Nat} {isDead : Bool} :
    ScanInv code begin curr isDead → ∀ k block,
      (createBasicBlocksFrom code begin curr isDead)[k]? = some block → FallsOff code block →
      (block.endIdx < code.length →
        ((createBasicBlocksFrom code begin curr isDead)[k + 1]?).map BasicBlock.firstInstrIdx =
          some block.endIdx) ∧
      (block.endIdx = code.length → (createBasicBlocksFrom code begin curr isDead)[k + 1]? = none) := by
  fun_induction createBasicBlocksFrom code begin curr isDead with
  | case1 begin curr isDead inside next inst dead ih =>
    intro inv
    have deadTrue : isDead = true := by simp_all
    subst deadTrue
    exact ih (inv.skip inside)
  | case2 begin curr isDead inside next inst live begin' isDead' isEnd closes ih =>
    intro inv k block found falls
    cases k with
    | zero =>
      simp only [List.getElem?_cons_zero, Option.some.injEq] at found
      subst found
      have flows : endsFlow inst = false :=
        falls curr inv.toCurr.1 (nextInstr_next inside)
      have closed : ScanInv code next next isDead' := inv.close inside
      simp only [List.getElem?_cons_succ, ← List.head?_eq_getElem?]
      refine ⟨fun nextInside => ?_, fun atEnd => ?_⟩
      · obtain ⟨e, _, head⟩ := scan_head closed flows nextInside
        rw [head]
        rfl
      · rw [createBasicBlocksFrom_of_le (le_of_eq atEnd.symm)]
        rfl
    | succ k =>
      simp only [List.getElem?_cons_succ] at found ⊢
      exact ih (inv.close inside) k block found falls
  | case3 begin curr isDead inside next inst live begin' isDead' isEnd continues ih =>
    intro inv
    obtain ⟨flows, noBranch, notLast, notBefore⟩ := continues_iff.mp continues
    have deadFalse : isDead' = false := flows
    simp only [deadFalse] at ih ⊢
    exact ih (inv.extend inside flows noBranch notLast notBefore)
  | case4 => intro _ k block found; simp at found

end Scan

section Compile
variable {code : List UInt8} {block : BasicBlock}

theorem compileNext_eq (shape : BlockShape code block) {it : Nat}
    (walk : ReflTransGen (NextInstr code) block.firstInstrIdx it) (below : it < block.endIdx) :
    compileNext code block.endIdx it = skipPushDataAndGetNext code it := by
  have inside : it < code.length := lt_of_lt_of_le below shape.end_le
  have toEnd : ReflTransGen (NextInstr code) it block.endIdx := by
    rcases ReflTransGen.total_of_right_unique (nextInstr_unique code) shape.reaches_end walk with
      after | before
    · exact absurd (le_of_reaches after) (Nat.not_le.mpr below)
    · exact before
  have nextLe := le_of_reaches (reaches_of_ne toEnd inside (Nat.ne_of_lt below))
  have isByte : code[it]? = some (code.getD it 0) := by
    simp [List.getD_eq_getElem?_getD, List.getElem?_eq_getElem inside]
  dsimp only [compileNext]
  split
  · rename_i inPush
    rw [readPushData_eq isByte inPush nextLe shape.end_le, skipPushDataAndGetNext_of_push isByte inPush]
    omega
  · rename_i notPush
    dsimp only [skipPushDataAndGetNext]
    rw [if_neg notPush]

theorem compileBasicBlockFrom_cases (rev : Revision) (staticCall : Bool)
    (shape : BlockShape code block) {it : Nat} :
    ReflTransGen (NextInstr code) block.firstInstrIdx it → it ≠ block.firstInstrIdx →
      (compileBasicBlockFrom rev staticCall code block it).1 = [] := by
  fun_induction compileBasicBlockFrom rev staticCall code block it with
  | case1 it below inst cases invalid =>
    intro walk moved
    simp only [cases, dite_eq_ite, ite_eq_right_iff, reduceCtorEq, imp_false]
    exact fun jumpdest => shape.single_jumpdest it walk below moved
      ⟨lt_of_lt_of_le below shape.end_le, jumpdest⟩
  | case2 it below inst cases valid rest term found ih =>
    intro walk moved
    have inside := lt_of_lt_of_le below shape.end_le
    have stepped := compileNext_eq shape walk below
    rw [stepped] at ih found
    have later := ih (walk.tail (nextInstr_next inside))
      (Nat.ne_of_gt (lt_of_le_of_lt (le_of_reaches walk) (skipPushDataAndGetNext_le inside).1))
    have restNil : rest = [] := by simpa [found] using later
    simp only [restNil, List.append_nil, cases, dite_eq_ite, ite_eq_right_iff, reduceCtorEq, imp_false]
    exact fun jumpdest => shape.single_jumpdest it walk below moved ⟨inside, jumpdest⟩
  | case3 => intros; rfl

theorem compileBasicBlockFrom_fst (rev : Revision) (staticCall : Bool) {it : Nat}
    (below : it < block.endIdx) :
    (compileBasicBlockFrom rev staticCall code block it).1 =
      (if instAt code it = .jumpdest then [(block.firstInstrIdx, block.firstInstrIdx)] else []) ++
        (if validIn rev staticCall (instAt code it) then
          (compileBasicBlockFrom rev staticCall code block (compileNext code block.endIdx it)).1
        else []) := by
  rw [compileBasicBlockFrom, if_pos below]
  cases valid : validIn rev staticCall (instAt code it) <;> simp [valid]

theorem compileBasicBlock_cases (rev : Revision) (staticCall : Bool) (shape : BlockShape code block)
    (nonempty : block.firstInstrIdx < block.endIdx) :
    (compileBasicBlock rev staticCall code block).1 =
      if instAt code block.firstInstrIdx = .jumpdest then
        [(block.firstInstrIdx, block.firstInstrIdx)] else [] := by
  have inside := lt_of_lt_of_le nonempty shape.end_le
  have rest := compileBasicBlockFrom_cases rev staticCall shape
    ((ReflTransGen.refl).tail (nextInstr_next inside))
    (Nat.ne_of_gt (skipPushDataAndGetNext_le inside).1)
  rw [← compileNext_eq shape .refl nonempty] at rest
  rw [compileBasicBlock, compileBasicBlockFrom_fst rev staticCall nonempty, rest]
  simp

theorem instTerminator_of_flows {rev : Revision} {staticCall : Bool} {inst : Instruction}
    (valid : validIn rev staticCall inst = true) (flows : endsFlow inst = false)
    (noBranch : inst ≠ .jumpi) : instTerminator rev staticCall inst = none := by
  cases inst <;> simp_all [instTerminator, endsFlow]

theorem instTerminator_of_endsFlow (rev : Revision) (staticCall : Bool) {inst : Instruction}
    (ends : endsFlow inst = true) :
    ∃ term, instTerminator rev staticCall inst = some term ∧ term ≠ .none ∧ term ≠ .jumpi := by
  unfold instTerminator
  split
  · exact ⟨_, rfl, by simp, by simp⟩
  · cases inst <;> simp_all [endsFlow]

theorem compileBasicBlockFrom_ends (rev : Revision) (staticCall : Bool)
    (shape : BlockShape code block) {last : Nat}
    (toLast : ReflTransGen (NextInstr code) block.firstInstrIdx last)
    (isLast : NextInstr code last block.endIdx) (ends : endsFlow (instAt code last) = true) {it : Nat} :
    ReflTransGen (NextInstr code) block.firstInstrIdx it → it ≤ last →
      (compileBasicBlockFrom rev staticCall code block it).2 ≠ .none ∧
      (compileBasicBlockFrom rev staticCall code block it).2 ≠ .jumpi := by
  fun_induction compileBasicBlockFrom rev staticCall code block it with
  | case1 => intros; simp
  | case2 it below inst cases valid rest term found ih =>
    intro walk atMost
    have inside := lt_of_lt_of_le below shape.end_le
    simp only [Bool.not_eq_true', Bool.not_eq_false] at valid
    rcases Nat.lt_or_eq_of_le atMost with before | rfl
    · -- an instruction before the last adds no terminator; the rest of the block decides
      have toLastHere : ReflTransGen (NextInstr code) it last := by
        rcases ReflTransGen.total_of_right_unique (nextInstr_unique code) walk toLast with
          after | earlier
        · exact after
        · exact absurd (le_of_reaches earlier) (Nat.not_le.mpr before)
      have nextLe := le_of_reaches (reaches_of_ne toLastHere inside (Nat.ne_of_lt before))
      have notLast : skipPushDataAndGetNext code it < block.endIdx :=
        lt_of_le_of_lt nextLe (isLast.2 ▸ (skipPushDataAndGetNext_le isLast.1).1)
      obtain ⟨flows, noBranch⟩ := shape.inner it walk inside notLast
      rw [compileNext_eq shape walk below] at ih found
      have later := ih (walk.tail (nextInstr_next inside)) nextLe
      rw [found] at later
      simp only [instTerminator_of_flows valid flows noBranch, Option.getD_none]
      exact later
    · obtain ⟨term', added, notNone, notJumpi⟩ :=
        instTerminator_of_endsFlow rev staticCall ends
      simp only [inst, added, Option.getD_some]
      exact ⟨notNone, notJumpi⟩
  | case3 it outside =>
    intro _ atMost
    exact absurd (lt_of_le_of_lt atMost (isLast.2 ▸ (skipPushDataAndGetNext_le isLast.1).1))
      outside

theorem fallsOff_of_compileBasicBlock (rev : Revision) (staticCall : Bool)
    (shape : BlockShape code block)
    (open_ : (compileBasicBlock rev staticCall code block).2 = .none ∨
      (compileBasicBlock rev staticCall code block).2 = .jumpi) : FallsOff code block := by
  intro last toLast isLast
  by_contra ends
  have closed := compileBasicBlockFrom_ends rev staticCall shape toLast isLast
    (by simpa using ends) .refl (le_of_reaches toLast)
  rcases open_ with none | jumpi
  · exact closed.1 none
  · exact closed.2 jumpi

end Compile

/-! ## The jump table and the branches -/

section TableCases
variable {code : List UInt8}

theorem createBasicBlocks_shape : ∀ block ∈ createBasicBlocks code, BlockShape code block :=
  scan_blockShape (scanInv_start code)

theorem createBasicBlocks_sorted :
    (∀ block ∈ createBasicBlocks code, block.firstInstrIdx < block.endIdx) ∧
    (createBasicBlocks code).Pairwise (fun a b => a.endIdx ≤ b.firstInstrIdx) := by
  obtain ⟨bounds, sorted⟩ := scan_sorted (scanInv_start code)
  exact ⟨fun block member => (bounds block member).2.1, sorted⟩

theorem live_covered {i : Nat} (live : Live code i) :
    ∃ block ∈ createBasicBlocks code, block.firstInstrIdx ≤ i ∧ i < block.endIdx ∧
      (IsJumpdest code i → block.firstInstrIdx = i) := by
  obtain ⟨start, source, inCode, path⟩ := live
  apply scan_covers (scanInv_start code) i
  rcases source with rfl | ⟨boundary, jumpdest⟩
  · exact ⟨0, .refl, inCode, Or.inl ⟨rfl, rfl⟩, path⟩
  · exact ⟨start, boundary, inCode, Or.inr jumpdest, path⟩

theorem flatten_map_eq_filter_map {p : BasicBlock → Bool} {f : BasicBlock → List (Nat × Nat)}
    {g : BasicBlock → Nat × Nat} :
    ∀ blocks : List BasicBlock, (∀ block ∈ blocks, f block = if p block then [g block] else []) →
      (blocks.map f).flatten = (blocks.filter p).map g := by
  intro blocks
  induction blocks with
  | nil => intro _; rfl
  | cons block blocks ih =>
    intro each
    rw [List.map_cons, List.flatten_cons, each block List.mem_cons_self,
      ih fun other member => each other (List.mem_cons_of_mem _ member), List.filter_cons]
    cases p block <;> simp

theorem jumpTableCases_eq (rev : Revision) (staticCall : Bool) :
    jumpTableCases rev staticCall code =
      ((createBasicBlocks code).filter fun block => instAt code block.firstInstrIdx == .jumpdest).map
        fun block => (block.firstInstrIdx, block.firstInstrIdx) := by
  unfold jumpTableCases compileBlocks
  rw [List.map_map]
  apply flatten_map_eq_filter_map
  intro block member
  simp only [Function.comp_apply, beq_iff_eq]
  exact compileBasicBlock_cases rev staticCall (createBasicBlocks_shape block member)
    (createBasicBlocks_sorted.1 block member)

theorem mem_jumpTableCases {rev : Revision} {staticCall : Bool} {i b : Nat} :
    (i, b) ∈ jumpTableCases rev staticCall code ↔
      b = i ∧ ∃ block ∈ createBasicBlocks code, block.firstInstrIdx = i ∧ instAt code i = .jumpdest := by
  rw [jumpTableCases_eq]
  simp only [List.mem_map, List.mem_filter, beq_iff_eq, Prod.mk.injEq]
  constructor
  · rintro ⟨block, ⟨member, jumpdest⟩, rfl, rfl⟩
    exact ⟨rfl, block, member, rfl, jumpdest⟩
  · rintro ⟨rfl, block, member, rfl, jumpdest⟩
    exact ⟨block, ⟨member, jumpdest⟩, rfl, rfl⟩

theorem mem_jumpTableCases_fst {rev : Revision} {staticCall : Bool} {i : Nat} :
    i ∈ (jumpTableCases rev staticCall code).map Prod.fst ↔ IsJumpdest code i ∧ IsBoundary code i := by
  constructor
  · intro member
    obtain ⟨⟨i', b⟩, found, rfl⟩ := List.mem_map.mp member
    obtain ⟨_, block, inBlocks, rfl, jumpdest⟩ := mem_jumpTableCases.mp found
    have shape := createBasicBlocks_shape block inBlocks
    exact ⟨⟨lt_of_lt_of_le (createBasicBlocks_sorted.1 block inBlocks) shape.end_le, jumpdest⟩,
      shape.boundary⟩
  · rintro ⟨jumpdest, boundary⟩
    obtain ⟨block, member, _, _, starts⟩ :=
      live_covered ⟨i, Or.inr ⟨boundary, jumpdest⟩, jumpdest.1, .refl⟩
    exact List.mem_map.mpr ⟨(i, i), mem_jumpTableCases.mpr
      ⟨rfl, block, member, starts jumpdest, jumpdest.2⟩, rfl⟩

theorem jumpTableCases_nodup (rev : Revision) (staticCall : Bool) :
    ((jumpTableCases rev staticCall code).map Prod.fst).Nodup := by
  rw [jumpTableCases_eq, List.map_map]
  have increasing : (createBasicBlocks code).Pairwise
      (fun a b => a.firstInstrIdx < b.firstInstrIdx) :=
    createBasicBlocks_sorted.2.imp_of_mem fun member _ before =>
      lt_of_lt_of_le (createBasicBlocks_sorted.1 _ member) before
  exact List.pairwise_map.mpr ((increasing.filter _).imp fun before => Nat.ne_of_lt before)

theorem lookup_of_diagonal {cases : List (Nat × Nat)} (diagonal : ∀ c ∈ cases, c.2 = c.1)
    (dest : Nat) : cases.lookup dest = if dest ∈ cases.map Prod.fst then some dest else none := by
  induction cases with
  | nil => simp
  | cons c cases ih =>
    obtain ⟨key, value⟩ := c
    have same : value = key := diagonal (key, value) List.mem_cons_self
    subst same
    have rest := ih fun other member => diagonal other (List.mem_cons_of_mem _ member)
    by_cases found : dest = value
    · subst found
      simp
    · have differ : (dest == value) = false := by simpa using found
      simp only [List.lookup_cons, differ, rest, List.map_cons, List.mem_cons, found, false_or]

def JumpsTo (code : List UInt8) (dest : Nat) (target : Target) : Prop :=
  (IsJumpdest code dest ∧ IsBoundary code dest ∧ target = .block dest) ∨
    (¬(IsJumpdest code dest ∧ IsBoundary code dest) ∧ target = .abort)

theorem switchTarget_jumpsTo (rev : Revision) (staticCall : Bool) (dest : Nat) :
    JumpsTo code dest (switchTarget (jumpTableCases rev staticCall code) dest) := by
  have diagonal : ∀ c ∈ jumpTableCases rev staticCall code, c.2 = c.1 :=
    fun c member => (mem_jumpTableCases.mp member).1
  unfold switchTarget
  rw [lookup_of_diagonal diagonal]
  by_cases valid : IsJumpdest code dest ∧ IsBoundary code dest
  · rw [if_pos (mem_jumpTableCases_fst.mpr valid)]
    exact Or.inl ⟨valid.1, valid.2, rfl⟩
  · rw [if_neg (fun member => valid (mem_jumpTableCases_fst.mp member))]
    exact Or.inr ⟨valid, rfl⟩

def fallThrough (code : List UInt8) (block : BasicBlock) : Target :=
  if block.endIdx < code.length then .block block.endIdx else .stop

theorem nextBlock_eq_fallThrough {k : Nat} {block : BasicBlock}
    (found : (createBasicBlocks code)[k]? = some block) (falls : FallsOff code block) :
    nextBlock (createBasicBlocks code) k = fallThrough code block := by
  obtain ⟨follows, last⟩ := scan_follows (scanInv_start code) k block found falls
  have shape := createBasicBlocks_shape block (List.mem_of_getElem? found)
  unfold nextBlock fallThrough
  by_cases inside : block.endIdx < code.length
  · obtain ⟨next, nextFound, starts⟩ := Option.map_eq_some_iff.mp (follows inside)
    rw [if_pos inside, ← starts]
    simp only [createBasicBlocks, nextFound]
  · rw [if_neg inside]
    have atEnd := last (Nat.le_antisymm shape.end_le (Nat.not_lt.mp inside))
    simp only [createBasicBlocks, atEnd]

theorem getElem?_resolveJumps (rev : Revision) (staticCall : Bool) (constDest : Nat → Option Nat)
    (k : Nat) :
    (resolveJumps rev staticCall code constDest)[k]? =
      ((compileBlocks rev staticCall code)[k]?).map fun compiled =>
        resolveJump (jumpTableCases rev staticCall code) (createBasicBlocks code) k (constDest k)
          compiled.2 := by
  simp [resolveJumps, List.getElem?_zipIdx, Function.comp_def]

theorem length_resolveJumps (rev : Revision) (staticCall : Bool) (constDest : Nat → Option Nat) :
    (resolveJumps rev staticCall code constDest).length = (createBasicBlocks code).length := by
  simp [resolveJumps, compileBlocks]

theorem getElem?_resolveJumps_of_block (rev : Revision) (staticCall : Bool)
    (constDest : Nat → Option Nat) {k : Nat} {block : BasicBlock}
    (found : (createBasicBlocks code)[k]? = some block) :
    (resolveJumps rev staticCall code constDest)[k]? =
      some (resolveJump (jumpTableCases rev staticCall code) (createBasicBlocks code) k (constDest k)
        (compileBasicBlock rev staticCall code block).2) := by
  rw [getElem?_resolveJumps]
  simp [compileBlocks, found]

end TableCases

section Table
variable {code : List UInt8}

theorem eq_of_sorted {blocks : List BasicBlock}
    (sorted : blocks.Pairwise (fun a b => a.endIdx ≤ b.firstInstrIdx)) {a b : BasicBlock}
    (inA : a ∈ blocks) (inB : b ∈ blocks) {i : Nat}
    (withinA : a.firstInstrIdx ≤ i ∧ i < a.endIdx) (withinB : b.firstInstrIdx ≤ i ∧ i < b.endIdx) :
    a = b := by
  induction blocks with
  | nil => simp at inA
  | cons c blocks ih =>
    obtain ⟨before, sorted⟩ := List.pairwise_cons.mp sorted
    rcases List.mem_cons.mp inA with rfl | laterA <;> rcases List.mem_cons.mp inB with rfl | laterB
    · rfl
    · exact absurd (before b laterB) (by omega)
    · exact absurd (before a laterA) (by omega)
    · exact ih sorted laterA laterB

theorem target_resolveJump_jump {cases : List (Nat × Nat)} {blocks : List BasicBlock} {k : Nat}
    {known : Option Nat} {dest : Nat} (taken : Bool) (destKnown : known = none ∨ known = some dest) :
    (resolveJump cases blocks k known .jump).target cases dest taken =
      some (switchTarget cases dest) := by
  rcases destKnown with rfl | rfl <;> rfl

theorem target_resolveJump_jumpi {cases : List (Nat × Nat)} {blocks : List BasicBlock} {k : Nat}
    {known : Option Nat} {dest : Nat} (taken : Bool) (destKnown : known = none ∨ known = some dest) :
    (resolveJump cases blocks k known .jumpi).target cases dest taken =
      some (if taken then switchTarget cases dest else nextBlock blocks k) := by
  rcases destKnown with rfl | rfl <;> rfl

theorem resolveJump_target (rev : Revision) (staticCall : Bool) (constDest : Nat → Option Nat)
    {k : Nat} {block : BasicBlock} (foundBlock : (createBasicBlocks code)[k]? = some block)
    (dest : Nat) (taken : Bool) (destKnown : constDest k = none ∨ constDest k = some dest) :
    let cases := jumpTableCases rev staticCall code
    let terminator := (compileBasicBlock rev staticCall code block).2
    let branch := resolveJump cases (createBasicBlocks code) k (constDest k) terminator
    (terminator = .none → branch.target cases dest taken = some (fallThrough code block)) ∧
    (terminator = .jump →
      ∃ target, branch.target cases dest taken = some target ∧ JumpsTo code dest target) ∧
    (terminator = .jumpi → taken = true →
      ∃ target, branch.target cases dest taken = some target ∧ JumpsTo code dest target) ∧
    (terminator = .jumpi → taken = false →
      branch.target cases dest taken = some (fallThrough code block)) := by
  intro cases terminator branch
  have shape := createBasicBlocks_shape block (List.mem_of_getElem? foundBlock)
  have jumps : JumpsTo code dest (switchTarget cases dest) := switchTarget_jumpsTo rev staticCall dest
  refine ⟨fun none => ?_, fun jump => ?_, fun jumpi onTrue => ?_, fun jumpi onFalse => ?_⟩
  · have falls := fallsOff_of_compileBasicBlock rev staticCall shape (Or.inl none)
    simp [branch, none, resolveJump, Branch.target, nextBlock_eq_fallThrough foundBlock falls]
  · refine ⟨switchTarget cases dest, ?_, jumps⟩
    simp only [branch, jump]
    exact target_resolveJump_jump taken destKnown
  · refine ⟨switchTarget cases dest, ?_, jumps⟩
    simp only [branch, jumpi]
    rw [target_resolveJump_jumpi taken destKnown, if_pos onTrue]
  · have falls := fallsOff_of_compileBasicBlock rev staticCall shape (Or.inr jumpi)
    simp only [branch, jumpi]
    rw [target_resolveJump_jumpi taken destKnown, onFalse, if_neg Bool.false_ne_true,
      nextBlock_eq_fallThrough foundBlock falls]

end Table

/-- The basic blocks and the jump table of any code. -/
theorem jumpTable_resolves (rev : Revision) (staticCall : Bool) (code : List UInt8)
    (constDest : Nat → Option Nat) :
    let blocks := createBasicBlocks code
    let cases := jumpTableCases rev staticCall code
    (∀ i, i ∈ cases.map Prod.fst ↔ IsJumpdest code i ∧ IsBoundary code i) ∧
    (cases.map Prod.fst).Nodup ∧
    (∀ i b, (i, b) ∈ cases → b = i ∧ ∃ block ∈ blocks, block.firstInstrIdx = i) ∧
    (resolveJumps rev staticCall code constDest).length = blocks.length ∧
    (∀ k block, blocks[k]? = some block →
      ∃ branch, (resolveJumps rev staticCall code constDest)[k]? = some branch ∧
      ∀ dest taken, (constDest k = none ∨ constDest k = some dest) →
        let terminator := (compileBasicBlock rev staticCall code block).2
        (terminator = .none → branch.target cases dest taken = some (fallThrough code block)) ∧
        (terminator = .jump →
          ∃ target, branch.target cases dest taken = some target ∧ JumpsTo code dest target) ∧
        (terminator = .jumpi → taken = true →
          ∃ target, branch.target cases dest taken = some target ∧ JumpsTo code dest target) ∧
        (terminator = .jumpi → taken = false →
          branch.target cases dest taken = some (fallThrough code block))) ∧
    blocks.Pairwise (fun a b => a.endIdx ≤ b.firstInstrIdx) ∧
    (∀ block ∈ blocks, block.firstInstrIdx < block.endIdx) ∧
    ∀ i, Live code i → ∃! block, block ∈ blocks ∧ block.firstInstrIdx ≤ i ∧ i < block.endIdx := by
  intro blocks cases
  obtain ⟨nonempty, sorted⟩ := @createBasicBlocks_sorted code
  refine ⟨fun i => mem_jumpTableCases_fst, jumpTableCases_nodup rev staticCall,
    fun i b member => ?_, length_resolveJumps rev staticCall constDest,
    fun k block foundBlock => ?_, sorted, nonempty, fun i live => ?_⟩
  · obtain ⟨same, block, inBlocks, starts, _⟩ := mem_jumpTableCases.mp member
    exact ⟨same, block, inBlocks, starts⟩
  · exact ⟨_, getElem?_resolveJumps_of_block rev staticCall constDest foundBlock,
      fun dest taken destKnown => resolveJump_target rev staticCall constDest foundBlock dest taken
        destKnown⟩
  · obtain ⟨block, member, first, last, _⟩ := live_covered live
    exact ⟨block, ⟨member, first, last⟩, fun other ⟨otherMember, otherFirst, otherLast⟩ =>
      eq_of_sorted sorted otherMember member ⟨otherFirst, otherLast⟩ ⟨first, last⟩⟩

-- The JUMPDEST after a STOP starts a block; the `0x5b` in the data of the PUSH2 is no case.
example : createBasicBlocks [0x00, 0x01, 0x5b, 0x61, 0x5b] = [⟨0, 1⟩, ⟨2, 5⟩] ∧
    jumpTableCases .aion false [0x00, 0x01, 0x5b, 0x61, 0x5b] = [(2, 2)] := by
  decide +kernel

end AionFastVM.Jit
