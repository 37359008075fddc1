import AionFastVM.Jit.LocalStack
import AionFastVM.Library.ByteCodec

/-!
# PUSH data and 256-bit words on the 128-bit stack
-/

namespace AionFastVM.Jit
open AionFastVM.Library

def numPushBytes (op : UInt8) : Nat := op.toNat - 0x60 + 1

def skipPushDataAndGetNext (code : List UInt8) (curr : Nat) : Nat :=
  let op := code.getD curr 0
  let offset := 1 + if 0x60 ≤ op ∧ op ≤ 0x7f then min (numPushBytes op) (code.length - curr - 1) else 0
  curr + offset

def pushWidth (numBytes : Nat) : Nat := if numBytes > 16 then 256 else 128

def readPushBytes (code : List UInt8) (endIdx width : Nat) : Nat → Nat → Nat → Nat × Nat
  | 0, cursor, value => (value, cursor)
  | remaining + 1, cursor, value =>
    let b : UInt8 := if cursor ≠ endIdx then code.getD cursor 0 else 0
    let next := if cursor ≠ endIdx then cursor + 1 else cursor
    readPushBytes code endIdx width remaining next ((value <<< 8) % 2 ^ width ||| b.toNat)

def readPushData (code : List UInt8) (curr endIdx : Nat) : Nat × Nat :=
  let numBytes := numPushBytes (code.getD curr 0)
  let (value, cursor) := readPushBytes code endIdx (pushWidth numBytes) numBytes (curr + 1) 0
  (value, cursor - 1)

section
variable (fetch : Int → BitVec 128)

def pushWord256 (stack : LocalStack (BitVec 128)) (word : BitVec 256) : LocalStack (BitVec 128) :=
  let w16_31 := word.setWidth 128
  let stack := stack.push w16_31
  let w0_16 := (word >>> 128).setWidth 128
  stack.push w0_16

def popWord256 (stack : LocalStack (BitVec 128)) : BitVec 256 × LocalStack (BitVec 128) :=
  let (w0_15, stack) := stack.pop fetch
  let w0_15 := w0_15.setWidth 256 <<< 128
  let (w16_32, stack) := stack.pop fetch
  (w0_15 ||| w16_32.setWidth 256, stack)

def compilePush (code : List UInt8) (it endIdx : Nat) (stack : LocalStack (BitVec 128)) :
    LocalStack (BitVec 128) × Nat :=
  let numBytes := numPushBytes (code.getD it 0)
  let (value, it) := readPushData code it endIdx
  if pushWidth numBytes > 8 * 16 then (pushWord256 stack (BitVec.ofNat 256 value), it)
  else (stack.push (BitVec.ofNat 128 value), it)

end

def pushValue (code : List UInt8) (p : Nat) (op : UInt8) : Nat :=
  let data := (code.drop (p + 1)).take (numPushBytes op)
  beValue data * 256 ^ (numPushBytes op - data.length)

theorem shiftIn_eq {width : Nat} (front : List UInt8) (b : UInt8)
    (fits : 256 ^ (front.length + 1) ≤ 2 ^ width) :
    (beValue front <<< 8) % 2 ^ width ||| b.toNat = beValue (front ++ [b]) := by
  have shifted : beValue front <<< 8 = beValue front * 256 := Nat.shiftLeft_eq _ _
  have small : beValue front * 256 < 2 ^ width :=
    calc beValue front * 256 < 256 ^ front.length * 256 :=
          Nat.mul_lt_mul_of_pos_right (beValue_lt front) (by decide)
      _ = 256 ^ (front.length + 1) := (Nat.pow_succ _ _).symm
      _ ≤ 2 ^ width := fits
  rw [shifted, Nat.mod_eq_of_lt small, beValue_append_single, ← shifted,
    Nat.shiftLeft_add_eq_or_of_lt (by simpa using b.toNat_lt)]

theorem readPushBytes_eq {code : List UInt8} {endIdx width : Nat} (inCode : endIdx ≤ code.length) :
    ∀ (remaining cursor : Nat) (front : List UInt8), cursor ≤ endIdx →
      256 ^ (front.length + remaining) ≤ 2 ^ width →
      readPushBytes code endIdx width remaining cursor (beValue front) =
        (beValue (front ++ ((code.drop cursor).take (min remaining (endIdx - cursor)) ++
            List.replicate (remaining - (endIdx - cursor)) 0)),
          cursor + min remaining (endIdx - cursor)) := by
  intro remaining
  induction remaining with
  | zero => intro cursor front _ _; simp [readPushBytes]
  | succ remaining ih =>
    intro cursor front before fits
    have fitsOne : 256 ^ (front.length + 1) ≤ 2 ^ width :=
      le_trans (Nat.pow_le_pow_right (by decide) (by omega)) fits
    have fitsRest : 256 ^ ((front ++ [0]).length + remaining) ≤ 2 ^ width := by
      simpa [Nat.add_assoc, Nat.add_comm 1] using fits
    by_cases atEnd : cursor = endIdx
    · -- at the end iterator: a zero byte, and the cursor stays
      subst atEnd
      simp only [readPushBytes, ne_eq, not_true_eq_false, if_false]
      rw [shiftIn_eq front 0 fitsOne, ih cursor (front ++ [0]) le_rfl fitsRest]
      simp [List.replicate_succ]
    · -- a byte of the code
      have inside : cursor < code.length := by omega
      have count : min (remaining + 1) (endIdx - cursor) =
          min remaining (endIdx - (cursor + 1)) + 1 := by omega
      have fitsByte : 256 ^ ((front ++ [code[cursor]]).length + remaining) ≤ 2 ^ width := by
        simpa [Nat.add_assoc, Nat.add_comm 1] using fits
      simp only [readPushBytes, ne_eq, atEnd, not_false_eq_true, if_true]
      have byte : code.getD cursor 0 = code[cursor] := by simp [List.getD_eq_getElem?_getD, inside]
      rw [byte, shiftIn_eq _ _ fitsOne,
        ih (cursor + 1) _ (by omega) fitsByte, List.drop_eq_getElem_cons inside, count,
        List.take_succ_cons]
      have zeros : remaining + 1 - (endIdx - cursor) = remaining - (endIdx - (cursor + 1)) := by
        omega
      simp only [List.append_assoc, List.cons_append, List.nil_append, Prod.mk.injEq, zeros,
        true_and]
      omega

theorem skipPushDataAndGetNext_of_push {code : List UInt8} {p : Nat} {op : UInt8}
    (isPush : code[p]? = some op) (inPush : 0x60 ≤ op ∧ op ≤ 0x7f) :
    skipPushDataAndGetNext code p = p + 1 + min (numPushBytes op) (code.length - p - 1) := by
  have op_eq : code.getD p 0 = op := by simp [List.getD_eq_getElem?_getD, isPush]
  simp only [skipPushDataAndGetNext, op_eq, inPush, and_self, if_true]
  omega

theorem skipPushDataAndGetNext_le {code : List UInt8} {p : Nat} (inside : p < code.length) :
    p < skipPushDataAndGetNext code p ∧ skipPushDataAndGetNext code p ≤ code.length := by
  unfold skipPushDataAndGetNext
  dsimp only
  split <;> omega

theorem numPushBytes_le {op : UInt8} (inPush : 0x60 ≤ op ∧ op ≤ 0x7f) :
    1 ≤ numPushBytes op ∧ numPushBytes op ≤ 32 := by
  have top : op.toNat ≤ 0x7f := UInt8.le_iff_toNat_le.mp inPush.2
  unfold numPushBytes
  omega

theorem pow_le_pushWidth (numBytes : Nat) (atMost : numBytes ≤ 32) :
    256 ^ numBytes ≤ 2 ^ pushWidth numBytes := by
  have bytes : (256 : Nat) = 2 ^ 8 := rfl
  rw [bytes, ← Nat.pow_mul]
  apply Nat.pow_le_pow_right (by decide)
  unfold pushWidth
  split_ifs <;> omega

theorem readPushData_eq {code : List UInt8} {p endIdx : Nat} {op : UInt8}
    (isPush : code[p]? = some op) (inPush : 0x60 ≤ op ∧ op ≤ 0x7f)
    (fromNext : skipPushDataAndGetNext code p ≤ endIdx) (inCode : endIdx ≤ code.length) :
    readPushData code p endIdx =
      (beValue ((code.drop (p + 1)).take (numPushBytes op)) *
          256 ^ (numPushBytes op - (code.length - p - 1)),
        p + min (numPushBytes op) (code.length - p - 1)) := by
  have op_eq : code.getD p 0 = op := by simp [List.getD_eq_getElem?_getD, isPush]
  have next := skipPushDataAndGetNext_of_push isPush inPush
  have bytes := numPushBytes_le inPush
  have same : min (numPushBytes op) (endIdx - (p + 1)) =
      min (numPushBytes op) (code.length - p - 1) := by omega
  have taken : (code.drop (p + 1)).take (min (numPushBytes op) (code.length - p - 1)) =
      (code.drop (p + 1)).take (numPushBytes op) := by
    have dropped : (code.drop (p + 1)).length = code.length - p - 1 := by
      rw [List.length_drop]
      omega
    rw [← dropped, ← List.take_take, List.take_length]
  have missing : numPushBytes op - (endIdx - (p + 1)) = numPushBytes op - (code.length - p - 1) := by
    omega
  have loop := @readPushBytes_eq code endIdx (pushWidth (numPushBytes op)) inCode (numPushBytes op)
    (p + 1) [] (by omega) (by simpa using pow_le_pushWidth _ bytes.2)
  simp only [readPushData, op_eq]
  rw [show (0 : Nat) = beValue [] from rfl, loop, same, taken, missing, List.nil_append,
    beValue_append_zeros]
  simp only [Prod.mk.injEq, true_and]
  omega

theorem readPushData_lt {code : List UInt8} {p endIdx : Nat} {op : UInt8}
    (isPush : code[p]? = some op) (inPush : 0x60 ≤ op ∧ op ≤ 0x7f)
    (fromNext : skipPushDataAndGetNext code p ≤ endIdx) (inCode : endIdx ≤ code.length) :
    (readPushData code p endIdx).1 < 2 ^ pushWidth (numPushBytes op) := by
  rw [readPushData_eq isPush inPush fromNext inCode]
  have bytes := numPushBytes_le inPush
  have data := beValue_lt ((code.drop (p + 1)).take (numPushBytes op))
  rw [← beValue_append_zeros]
  calc _ < 256 ^ (((code.drop (p + 1)).take (numPushBytes op)) ++
          List.replicate (numPushBytes op - (code.length - p - 1)) 0).length := beValue_lt _
    _ ≤ 256 ^ numPushBytes op := by
          apply Nat.pow_le_pow_right (by decide)
          simp only [List.length_append, List.length_take, List.length_drop, List.length_replicate]
          omega
    _ ≤ 2 ^ pushWidth (numPushBytes op) := pow_le_pushWidth _ bytes.2

theorem readPushData_fst {code : List UInt8} {p endIdx : Nat} {op : UInt8}
    (isPush : code[p]? = some op) (inPush : 0x60 ≤ op ∧ op ≤ 0x7f)
    (fromNext : skipPushDataAndGetNext code p ≤ endIdx) (inCode : endIdx ≤ code.length) :
    (readPushData code p endIdx).1 = pushValue code p op := by
  have dataLength : ((code.drop (p + 1)).take (numPushBytes op)).length =
      min (numPushBytes op) (code.length - p - 1) := by
    simp only [List.length_take, List.length_drop]
    omega
  have missing : numPushBytes op - min (numPushBytes op) (code.length - p - 1) =
      numPushBytes op - (code.length - p - 1) := by
    omega
  rw [readPushData_eq isPush inPush fromNext inCode, pushValue, dataLength, missing]

theorem join_halves (word : BitVec 256) :
    ((word >>> 128).setWidth 128).setWidth 256 <<< 128 ||| (word.setWidth 128).setWidth 256 = word := by
  apply BitVec.eq_of_toNat_eq
  simp only [BitVec.toNat_or, BitVec.toNat_shiftLeft, BitVec.toNat_setWidth, BitVec.toNat_ushiftRight]
  have below := word.isLt
  have high : (word.toNat >>> 128) % 2 ^ 128 % 2 ^ 256 = word.toNat / 2 ^ 128 := by
    rw [Nat.shiftRight_eq_div_pow, Nat.mod_eq_of_lt (by omega), Nat.mod_eq_of_lt (by omega)]
  have low : word.toNat % 2 ^ 128 % 2 ^ 256 = word.toNat % 2 ^ 128 := Nat.mod_eq_of_lt (by omega)
  have shifted : (word.toNat / 2 ^ 128) <<< 128 = word.toNat / 2 ^ 128 * 2 ^ 128 :=
    Nat.shiftLeft_eq _ _
  rw [high, low, shifted, Nat.mod_eq_of_lt (by omega), ← shifted,
    ← Nat.shiftLeft_add_eq_or_of_lt (Nat.mod_lt _ (by decide)), shifted]
  omega

theorem popWord256_of_locals (fetch : Int → BitVec 128) {stack : LocalStack (BitVec 128)}
    {rest : List (BitVec 128)} {low high : BitVec 128} (top : stack.locals = rest ++ [low] ++ [high]) :
    (popWord256 fetch stack).1 = high.setWidth 256 <<< 128 ||| low.setWidth 256 := by
  simp only [popWord256]
  rw [LocalStack.pop_fst_of_locals fetch top,
    LocalStack.pop_fst_of_locals fetch (LocalStack.locals_pop_of_locals fetch top)]

theorem locals_pushWord256 (stack : LocalStack (BitVec 128)) (word : BitVec 256) :
    (pushWord256 stack word).locals =
      stack.locals ++ [word.setWidth 128] ++ [(word >>> 128).setWidth 128] := by
  simp [pushWord256, LocalStack.push]

theorem popWord256_pushWord256 (fetch : Int → BitVec 128) (stack : LocalStack (BitVec 128))
    (word : BitVec 256) : (popWord256 fetch (pushWord256 stack word)).1 = word := by
  rw [popWord256_of_locals fetch (locals_pushWord256 stack word)]
  exact join_halves word

theorem pop_push (fetch : Int → BitVec 128) (stack : LocalStack (BitVec 128)) (item : BitVec 128) :
    ((stack.push item).pop fetch).1 = item :=
  LocalStack.pop_fst_of_locals fetch (show (stack.push item).locals = stack.locals ++ [item] by
    simp [LocalStack.push])

theorem compilePush_eq {code : List UInt8} {p endIdx : Nat} {op : UInt8} (isPush : code[p]? = some op)
    (stack : LocalStack (BitVec 128)) :
    (compilePush code p endIdx stack).1 =
      if 16 < numPushBytes op then pushWord256 stack (BitVec.ofNat 256 (readPushData code p endIdx).1)
      else stack.push (BitVec.ofNat 128 (readPushData code p endIdx).1) := by
  have op_eq : code.getD p 0 = op := by simp [List.getD_eq_getElem?_getD, isPush]
  have wide : pushWidth (numPushBytes op) > 8 * 16 ↔ 16 < numPushBytes op := by
    unfold pushWidth
    split_ifs <;> omega
  simp only [compilePush, op_eq]
  by_cases many : 16 < numPushBytes op
  · simp [wide.mpr many, many]
  · simp [mt wide.mp many, many]

/-- PUSH decoding agrees with block splitting and with the stack halves. -/
theorem pushData_agrees (code : List UInt8) (p : Nat) (op : UInt8) (isPush : code[p]? = some op)
    (inPush : 0x60 ≤ op ∧ op ≤ 0x7f) :
    (∀ endIdx, skipPushDataAndGetNext code p ≤ endIdx → endIdx ≤ code.length →
      readPushData code p endIdx =
        (pushValue code p op, p + min (numPushBytes op) (code.length - p - 1)) ∧
      ∀ (fetch : Int → BitVec 128) (stack : LocalStack (BitVec 128)),
        (numPushBytes op ≤ 16 →
          ((compilePush code p endIdx stack).1.pop fetch).1.toNat = pushValue code p op) ∧
        (16 < numPushBytes op →
          (popWord256 fetch (compilePush code p endIdx stack).1).1.toNat = pushValue code p op)) ∧
    p + min (numPushBytes op) (code.length - p - 1) + 1 = skipPushDataAndGetNext code p ∧
    ∀ (fetch : Int → BitVec 128) (stack : LocalStack (BitVec 128)) (word : BitVec 256),
      (popWord256 fetch (pushWord256 stack word)).1 = word := by
  let n := numPushBytes op
  let data := (code.drop (p + 1)).take n
  have dataLength : data.length = min n (code.length - p - 1) := by
    simp only [data, List.length_take, List.length_drop]
    omega
  have missing : n - (code.length - p - 1) = n - data.length := by
    rw [dataLength]
    omega
  have next := skipPushDataAndGetNext_of_push isPush inPush
  refine ⟨fun endIdx fromNext inCode => ?_, by omega,
    fun fetch stack word => popWord256_pushWord256 fetch stack word⟩
  have read : readPushData code p endIdx = (pushValue code p op, p + min n (code.length - p - 1)) := by
    rw [readPushData_eq isPush inPush fromNext inCode, missing]
    rfl
  have fits := readPushData_lt isPush inPush fromNext inCode
  rw [read] at fits
  refine ⟨read, fun fetch stack => ⟨fun few => ?_, fun many => ?_⟩⟩
  · -- one item of 128 bits holds the value
    have width : pushWidth n = 128 := by simp [pushWidth]; omega
    rw [compilePush_eq isPush, if_neg (by omega), read, pop_push, BitVec.toNat_ofNat,
      Nat.mod_eq_of_lt (width ▸ fits)]
  · -- two items, joined back by popWord256
    have width : pushWidth n = 256 := by simp [pushWidth]; omega
    rw [compilePush_eq isPush, if_pos many, read, popWord256_pushWord256, BitVec.toNat_ofNat,
      Nat.mod_eq_of_lt (width ▸ fits)]

/-- A PUSH2 in the last byte but one reads its missing byte as zero. -/
theorem pushData_agrees_truncated :
    readPushData [0x61, 0xab] 0 2 = (0xab00, 1) ∧ skipPushDataAndGetNext [0x61, 0xab] 0 = 2 := by
  have agrees := pushData_agrees [0x61, 0xab] 0 0x61 (by decide) (by decide)
  exact ⟨(agrees.1 2 (by decide) (by decide)).1.trans (by decide), agrees.2.1.symm.trans (by decide)⟩

end AionFastVM.Jit
