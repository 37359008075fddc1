import Mathlib.Tactic.Linarith

/-!
# EVM instructions, revisions and step costs

PUSH, DUP, SWAP and LOG are one constructor each, indexed from zero as the source indexes them;
every byte that names no instruction is `invalid`.
-/

namespace AionFastVM.Jit

inductive Revision where
  | frontier
  | homestead
  | tangerineWhistle
  | spuriousDragon
  | byzantium
  | aion
  | constantinople
  | aionV1
  deriving DecidableEq, Repr

namespace Revision

def toNat : Revision → Nat
  | frontier => 0
  | homestead => 1
  | tangerineWhistle => 2
  | spuriousDragon => 3
  | byzantium => 4
  | aion => 5
  | constantinople => 6
  | aionV1 => 7

instance : LE Revision := ⟨fun a b => a.toNat ≤ b.toNat⟩

instance (a b : Revision) : Decidable (a ≤ b) := inferInstanceAs (Decidable (a.toNat ≤ b.toNat))

end Revision

inductive Instruction where
  | stop | add | mul | sub | div | sdiv | mod | smod | addmod | mulmod | exp | signextend
  | lt | gt | slt | sgt | eq | iszero | and | or | xor | not | byte
  | sha3
  | address | balance | origin | caller | callvalue | calldataload | calldatasize
  | calldatacopy | codesize | codecopy | gasprice | extcodesize | extcodecopy
  | returndatasize | returndatacopy
  | blockhash | coinbase | timestamp | number | difficulty | gaslimit
  | pop | mload | mstore | mstore8 | sload | sstore | jump | jumpi | pc | msize | gas | jumpdest
  | push (index : Fin 32)
  | dup (index : Fin 32)
  | swap (index : Fin 32)
  | log (index : Fin 5)
  | create | call | callcode | «return» | delegatecall | staticcall | revert | selfdestruct
  | invalid (code : UInt8)
  deriving DecidableEq, Repr

instance (priority := 2000) neZeroIndexCount : NeZero 32 := ⟨by decide⟩

namespace Instruction

def ofByte (code : UInt8) : Instruction :=
  match code.toNat with
  | 0x00 => .stop | 0x01 => .add | 0x02 => .mul | 0x03 => .sub | 0x04 => .div | 0x05 => .sdiv
  | 0x06 => .mod | 0x07 => .smod | 0x08 => .addmod | 0x09 => .mulmod | 0x0a => .exp
  | 0x0b => .signextend
  | 0x10 => .lt | 0x11 => .gt | 0x12 => .slt | 0x13 => .sgt | 0x14 => .eq | 0x15 => .iszero
  | 0x16 => .and | 0x17 => .or | 0x18 => .xor | 0x19 => .not | 0x1a => .byte
  | 0x20 => .sha3
  | 0x30 => .address | 0x31 => .balance | 0x32 => .origin | 0x33 => .caller | 0x34 => .callvalue
  | 0x35 => .calldataload | 0x36 => .calldatasize | 0x37 => .calldatacopy | 0x38 => .codesize
  | 0x39 => .codecopy | 0x3a => .gasprice | 0x3b => .extcodesize | 0x3c => .extcodecopy
  | 0x3d => .returndatasize | 0x3e => .returndatacopy
  | 0x40 => .blockhash | 0x41 => .coinbase | 0x42 => .timestamp | 0x43 => .number
  | 0x44 => .difficulty | 0x45 => .gaslimit
  | 0x50 => .pop | 0x51 => .mload | 0x52 => .mstore | 0x53 => .mstore8 | 0x54 => .sload
  | 0x55 => .sstore | 0x56 => .jump | 0x57 => .jumpi | 0x58 => .pc | 0x59 => .msize
  | 0x5a => .gas | 0x5b => .jumpdest
  | 0xf0 => .create | 0xf1 => .call | 0xf2 => .callcode | 0xf3 => .«return»
  | 0xf4 => .delegatecall
  | 0xfa => .staticcall | 0xfd => .revert | 0xff => .selfdestruct
  | n =>
    if inPush : 0x60 ≤ n ∧ n < 0x80 then .push ⟨n - 0x60, by omega⟩
    else if inDup : 0x80 ≤ n ∧ n < 0x90 then .dup ⟨n - 0x80, by omega⟩
    else if inSwap : 0x90 ≤ n ∧ n < 0xa0 then .swap ⟨n - 0x90, by omega⟩
    else if inLog : 0xa0 ≤ n ∧ n < 0xa5 then .log ⟨n - 0xa0, by omega⟩
    else if inExtDup : 0xb0 ≤ n ∧ n < 0xc0 then .dup ⟨n - 0xb0 + 16, by omega⟩
    else if inExtSwap : 0xc0 ≤ n ∧ n < 0xd0 then .swap ⟨n - 0xc0 + 16, by omega⟩
    else .invalid code

end Instruction

-- The constants of JITSchedule that the step costs use.
namespace JITSchedule

def stepGas0 : Int := 0
def stepGas1 : Int := 2
def stepGas2 : Int := 3
def stepGas3 : Int := 5
def stepGas4 : Int := 8
def stepGas5 : Int := 10
def stepGas6 : Int := 20
def sha3Gas : Int := 30
def sloadGas : Int := 50
def jumpdestGas : Int := 1
def logGas : Int := 375
def logTopicGas : Int := 375
def createGas : Int := 32000
def callGas : Int := 40

end JITSchedule

open JITSchedule Revision in
def getStepCost (rev : Revision) : Instruction → Int
  -- Tier 0; SSTORE's cost is counted by countSStore
  | .stop | .«return» | .revert | .sstore => stepGas0
  -- Tier 1
  | .address | .origin | .caller | .callvalue | .calldatasize | .returndatasize | .codesize
  | .gasprice | .coinbase | .timestamp | .number | .difficulty | .gaslimit | .pop | .pc | .msize
  | .gas =>
    if aion ≤ rev then 1 else stepGas1
  -- Tier 2
  | .add | .sub | .lt | .gt | .slt | .sgt | .eq | .iszero | .and | .or | .xor | .not | .byte
  | .calldataload | .calldatacopy | .returndatacopy | .codecopy | .mload | .mstore | .mstore8
  | .push _ | .dup _ | .swap _ =>
    if aion ≤ rev then 1 else stepGas2
  -- Tier 3
  | .mul | .div | .sdiv | .mod | .smod | .signextend => if aion ≤ rev then 1 else stepGas3
  -- Tier 4
  | .addmod | .mulmod | .jump => if aion ≤ rev then 1 else stepGas4
  -- Tier 5
  | .exp | .jumpi => if aion ≤ rev then 1 else stepGas5
  -- Tier 6
  | .balance => if aion ≤ rev then 1000 else if tangerineWhistle ≤ rev then 400 else stepGas6
  | .extcodesize | .extcodecopy =>
    if aion ≤ rev then 1000 else if tangerineWhistle ≤ rev then 700 else stepGas6
  | .blockhash => stepGas6
  | .sha3 => sha3Gas
  | .sload => if aion ≤ rev then 1000 else if tangerineWhistle ≤ rev then 200 else sloadGas
  | .jumpdest => jumpdestGas
  | .log numTopics =>
    (if aion ≤ rev then 500 else logGas) +
      numTopics.val * (if aion ≤ rev then 500 else logTopicGas)
  | .call | .callcode | .delegatecall | .staticcall =>
    if aion ≤ rev then 1000 else if tangerineWhistle ≤ rev then 700 else callGas
  | .create => if aion ≤ rev then 200000 else createGas
  | .selfdestruct => if tangerineWhistle ≤ rev then 5000 else stepGas0
  -- an invalid instruction costs nothing
  | .invalid _ => 0

theorem getStepCost_nonneg (rev : Revision) (inst : Instruction) : 0 ≤ getStepCost rev inst := by
  cases inst <;> simp only [getStepCost, JITSchedule.stepGas0, JITSchedule.stepGas1,
    JITSchedule.stepGas2, JITSchedule.stepGas3, JITSchedule.stepGas4, JITSchedule.stepGas5,
    JITSchedule.stepGas6, JITSchedule.sha3Gas, JITSchedule.sloadGas, JITSchedule.jumpdestGas,
    JITSchedule.logGas, JITSchedule.logTopicGas, JITSchedule.createGas, JITSchedule.callGas] <;>
    (try split_ifs) <;> omega

open Revision in
def validIn (rev : Revision) (staticCall : Bool) : Instruction → Bool
  | .dup index | .swap index => index.val < 16 || decide (aionV1 ≤ rev)
  | .sstore | .create | .selfdestruct | .log _ => !staticCall
  | .returndatasize | .returndatacopy | .revert | .staticcall => decide (byzantium ≤ rev)
  | .delegatecall => decide (homestead ≤ rev)
  | .invalid _ => false
  | _ => true

end AionFastVM.Jit
