import AionFastVM.Jit.CallGas
import AionFastVM.Jit.Bitwise

/-!
# Memory

`mem.require` and the copies. Offsets and sizes above 2^33 are clamped before the sizes are
compared; accesses go through the index's low 64 bits.
-/

namespace AionFastVM.Jit
open AionFastVM.Library

namespace JITSchedule

def copyGas : Int := 3

end JITSchedule

def inputMax : Nat := 2 ^ 33

def memCost (rev : Revision) (size : Nat) : Nat :=
  let w := size >>> 5
  let ws := w * w
  w * (if Revision.aion ≤ rev then 1 else 3) + (ws >>> 9)

def extend (mem : List UInt8) (newSize : Nat) : List UInt8 :=
  mem ++ List.replicate (newSize - mem.length) 0

/-- `Memory::getRequireFunc`, the function `mem.require`. -/
def memRequire (rev : Revision) (mem : List UInt8) (blkOffset blkSize : BitVec 128) (gas : Int) :
    Option (List UInt8 × Int) :=
  if blkSize ≠ 0#128 then
    let blkOffsetOk := decide (blkOffset.toNat ≤ inputMax)
    let blkO := if blkOffsetOk then blkOffset.toNat % 2 ^ 64 else inputMax
    let blkSizeOk := decide (blkSize.toNat ≤ inputMax)
    let blkS := if blkSizeOk then blkSize.toNat % 2 ^ 64 else inputMax
    let sizeReq0 := blkO + blkS
    -- the and with uint64_t(-1) << 5
    let sizeReq := (sizeReq0 + 31) &&& 0xFFFFFFFFFFFFFFE0
    let sizeCur := mem.length
    let sizeOk := decide (sizeReq ≤ sizeCur)
    if sizeOk then some (mem, gas)
    else
      let cc := memCost rev sizeReq - memCost rev sizeCur
      let costOk := blkOffsetOk && blkSizeOk
      let c : Int := if costOk then cc else gasMax
      (gasCheck gas c).map fun gas => (extend mem sizeReq, gas)
  else some (mem, gas)

def requireAll (rev : Revision) :
    List (BitVec 128 × BitVec 128) → List UInt8 → Int → Option (List UInt8 × Int)
  | [], mem, gas => some (mem, gas)
  | (blkOffset, blkSize) :: calls, mem, gas =>
    match memRequire rev mem blkOffset blkSize gas with
    | none => none
    | some (mem, gas) => requireAll rev calls mem gas

def ceil32 (n : Nat) : Nat := (n + 31) / 32 * 32

def sizeRequired (blkOffset blkSize : BitVec 128) : Nat :=
  ceil32 (min blkOffset.toNat inputMax + min blkSize.toNat inputMax)

def resizeCost (rev : Revision) (blkOffset blkSize : BitVec 128) (sizeCur : Nat) : Int :=
  if blkOffset.toNat ≤ inputMax ∧ blkSize.toNat ≤ inputMax then
    ((memCost rev (sizeRequired blkOffset blkSize) - memCost rev sizeCur : Nat) : Int)
  else gasMax

theorem and_wordMask {x : Nat} (fits : x < 2 ^ 64) : x &&& 0xFFFFFFFFFFFFFFE0 = x / 32 * 32 := by
  have mask : (BitVec.allOnes 64 <<< 5).toNat = 0xFFFFFFFFFFFFFFE0 := by decide
  have rounded := congrArg BitVec.toNat (@BitVec.shiftLeft_ushiftRight 64 (BitVec.ofNat 64 x) 5)
  rw [BitVec.toNat_and, mask, BitVec.toNat_shiftLeft, BitVec.toNat_ushiftRight,
    BitVec.toNat_ofNat, Nat.mod_eq_of_lt fits, Nat.shiftLeft_eq, Nat.shiftRight_eq_div_pow] at rounded
  rw [← rounded]
  exact Nat.mod_eq_of_lt (lt_of_le_of_lt (Nat.div_mul_le_self x _) fits)

-- for any decision procedure: the one `decide_eq_true_eq` leaves is not `Nat.decLe`
theorem clamp_eq (x : BitVec 128) [Decidable (x.toNat ≤ inputMax)] :
    (if x.toNat ≤ inputMax then x.toNat % 2 ^ 64 else inputMax) = min x.toNat inputMax := by
  by_cases small : x.toNat ≤ inputMax
  · rw [if_pos small, Nat.mod_eq_of_lt (by unfold inputMax at small; omega), Nat.min_eq_left small]
  · rw [if_neg small, Nat.min_eq_right (by omega)]

theorem memRequire_eq (rev : Revision) (mem : List UInt8) (blkOffset blkSize : BitVec 128)
    (gas : Int) :
    memRequire rev mem blkOffset blkSize gas =
      if blkSize = 0#128 ∨ sizeRequired blkOffset blkSize ≤ mem.length then some (mem, gas)
      else (gasCheck gas (resizeCost rev blkOffset blkSize mem.length)).map
        fun gas => (extend mem (sizeRequired blkOffset blkSize), gas) := by
  have rounded : (min blkOffset.toNat inputMax + min blkSize.toNat inputMax + 31) &&&
      0xFFFFFFFFFFFFFFE0 = sizeRequired blkOffset blkSize := by
    rw [and_wordMask (by unfold inputMax; omega)]
    rfl
  by_cases empty : blkSize = 0#128
  · simp [memRequire, empty]
  · simp only [memRequire, ne_eq, empty, not_false_eq_true, if_true, decide_eq_true_eq]
    rw [clamp_eq, clamp_eq, rounded]
    simp [resizeCost]

variable {rev : Revision} {mem mem' : List UInt8} {blkOffset blkSize : BitVec 128} {gas gas' : Int}
variable {src mem1 : List UInt8} {srcIdx destMemIdx reqBytes : BitVec 128} {gas1 gas2 : Int}

theorem memRequire_cases (returned : memRequire rev mem blkOffset blkSize gas = some (mem', gas')) :
    (mem' = mem ∧ gas' = gas ∧ (blkSize = 0#128 ∨ sizeRequired blkOffset blkSize ≤ mem.length)) ∨
    (blkSize ≠ 0#128 ∧ mem.length < sizeRequired blkOffset blkSize ∧
      mem' = extend mem (sizeRequired blkOffset blkSize) ∧
      gas' = gas - resizeCost rev blkOffset blkSize mem.length ∧ 0 ≤ gas') := by
  rw [memRequire_eq] at returned
  split at returned
  · simp only [Option.some.injEq, Prod.mk.injEq] at returned
    obtain ⟨rfl, rfl⟩ := returned
    exact Or.inl ⟨rfl, rfl, ‹_›⟩
  · rename_i outside
    obtain ⟨nonempty, short⟩ := not_or.mp outside
    obtain ⟨left, paid, resized⟩ := Option.map_eq_some_iff.mp returned
    cases resized
    obtain ⟨nonneg, rfl⟩ := gasCheck_eq_some.mp paid
    exact Or.inr ⟨nonempty, by omega, rfl, rfl, nonneg⟩

theorem length_extend {n : Nat} (grows : mem.length ≤ n) : (extend mem n).length = n := by
  simp only [extend, List.length_append, List.length_replicate]
  omega

theorem ceil32_mod (n : Nat) : ceil32 n % 32 = 0 := Nat.mul_mod_left _ _

theorem le_ceil32 (n : Nat) : n ≤ ceil32 n := by
  unfold ceil32
  omega

theorem memRequire_length (returned : memRequire rev mem blkOffset blkSize gas = some (mem', gas')) :
    mem'.length = if blkSize = 0#128 then mem.length else max mem.length (sizeRequired blkOffset blkSize) := by
  rcases memRequire_cases returned with ⟨rfl, -, empty | inside⟩ | ⟨nonempty, grows, rfl, -⟩
  · simp [empty]
  · split <;> omega
  · rw [if_neg nonempty, length_extend grows.le]
    omega

theorem memRequire_extends (returned : memRequire rev mem blkOffset blkSize gas = some (mem', gas')) :
    ∃ n, mem' = mem ++ List.replicate n 0 := by
  rcases memRequire_cases returned with ⟨rfl, -⟩ | ⟨-, -, rfl, -⟩
  · exact ⟨0, by simp⟩
  · exact ⟨_, rfl⟩

theorem memCost_mono (rev : Revision) {a b : Nat} (le : a ≤ b) : memCost rev a ≤ memCost rev b := by
  have words : a >>> 5 ≤ b >>> 5 := by
    simp only [Nat.shiftRight_eq_div_pow]
    exact Nat.div_le_div_right le
  have squares : (a >>> 5 * (a >>> 5)) >>> 9 ≤ (b >>> 5 * (b >>> 5)) >>> 9 := by
    simp only [Nat.shiftRight_eq_div_pow] at words ⊢
    exact Nat.div_le_div_right (Nat.mul_le_mul words words)
  unfold memCost
  exact Nat.add_le_add (Nat.mul_le_mul_right _ words) squares

theorem memCost_of_aion (aion : Revision.aion ≤ rev) (size : Nat) :
    memCost rev size = size / 32 + (size / 32) ^ 2 / 512 := by
  simp [memCost, aion, Nat.shiftRight_eq_div_pow, Nat.pow_two]

theorem memRequire_charge (returned : memRequire rev mem blkOffset blkSize gas = some (mem', gas')) :
    gas - gas' = if mem'.length = mem.length then 0
      else if blkOffset.toNat ≤ inputMax ∧ blkSize.toNat ≤ inputMax then
        ((memCost rev mem'.length - memCost rev mem.length : Nat) : Int)
      else gasMax := by
  rcases memRequire_cases returned with ⟨rfl, rfl, -⟩ | ⟨-, grows, rfl, rfl, -⟩
  · simp
  · rw [length_extend grows.le, if_neg (by omega), resizeCost]
    split <;> omega

theorem memRequire_covers (returned : memRequire rev mem blkOffset blkSize gas = some (mem', gas'))
    (nonempty : blkSize ≠ 0#128) (offsetOk : blkOffset.toNat ≤ inputMax)
    (sizeOk : blkSize.toNat ≤ inputMax) :
    mem'.length = max mem.length (ceil32 (blkOffset.toNat + blkSize.toNat)) ∧
      blkOffset.toNat + blkSize.toNat ≤ mem'.length := by
  have asked : sizeRequired blkOffset blkSize = ceil32 (blkOffset.toNat + blkSize.toNat) := by
    rw [sizeRequired, Nat.min_eq_left offsetOk, Nat.min_eq_left sizeOk]
  rw [memRequire_length returned, if_neg nonempty, asked]
  exact ⟨rfl, le_trans (le_ceil32 _) (le_max_right _ _)⟩

/-! ## Runs of calls -/

theorem memRequire_grows (returned : memRequire rev mem blkOffset blkSize gas = some (mem', gas')) :
    mem.length ≤ mem'.length := by
  rw [memRequire_length returned]
  split <;> omega

theorem memRequire_words (returned : memRequire rev mem blkOffset blkSize gas = some (mem', gas'))
    (words : mem.length % 32 = 0) : mem'.length % 32 = 0 := by
  rw [memRequire_length returned]
  split
  · exact words
  · rcases Nat.le_total mem.length (sizeRequired blkOffset blkSize) with le | le
    · rw [Nat.max_eq_right le]
      exact ceil32_mod _
    · rw [Nat.max_eq_left le]
      exact words

theorem requireAll_cons {call : BitVec 128 × BitVec 128} {calls : List (BitVec 128 × BitVec 128)}
    (returned : requireAll rev (call :: calls) mem gas = some (mem', gas')) :
    ∃ mid gasMid, memRequire rev mem call.1 call.2 gas = some (mid, gasMid) ∧
      requireAll rev calls mid gasMid = some (mem', gas') := by
  obtain ⟨blkOffset, blkSize⟩ := call
  simp only [requireAll] at returned
  split at returned
  · cases returned
  · exact ⟨_, _, ‹_›, returned⟩

theorem requireAll_cons_of {blkOffset blkSize : BitVec 128} {calls : List (BitVec 128 × BitVec 128)}
    {mid : List UInt8} {gasMid : Int} (first : memRequire rev mem blkOffset blkSize gas = some (mid, gasMid)) :
    requireAll rev ((blkOffset, blkSize) :: calls) mem gas = requireAll rev calls mid gasMid := by
  simp only [requireAll, first]

theorem requireAll_length {calls : List (BitVec 128 × BitVec 128)}
    (returned : requireAll rev calls mem gas = some (mem', gas')) :
    mem.length ≤ mem'.length ∧ (mem.length % 32 = 0 → mem'.length % 32 = 0) := by
  induction calls generalizing mem gas with
  | nil =>
    cases returned
    exact ⟨le_rfl, id⟩
  | cons call calls ih =>
    obtain ⟨mid, gasMid, first, rest⟩ := requireAll_cons returned
    obtain ⟨grows, words⟩ := ih rest
    exact ⟨le_trans (memRequire_grows first) grows,
      fun whole => words (memRequire_words first whole)⟩

theorem requireAll_charges {calls : List (BitVec 128 × BitVec 128)}
    (returned : requireAll rev calls mem gas = some (mem', gas'))
    (withinLimits : ∀ call ∈ calls, call.1.toNat ≤ inputMax ∧ call.2.toNat ≤ inputMax) :
    gas - gas' = ((memCost rev mem'.length - memCost rev mem.length : Nat) : Int) := by
  induction calls generalizing mem gas with
  | nil =>
    cases returned
    simp
  | cons call calls ih =>
    obtain ⟨mid, gasMid, first, rest⟩ := requireAll_cons returned
    have later := ih rest (fun call member => withinLimits call (List.mem_cons_of_mem _ member))
    have charge := memRequire_charge first
    rw [if_pos (withinLimits call List.mem_cons_self)] at charge
    have costFirst := memCost_mono rev (memRequire_grows first)
    have costRest := memCost_mono rev (requireAll_length rest).1
    split at charge
    · rename_i same
      rw [same] at later
      omega
    · omega

theorem memRequire_of_sizeRequired_le (fits : sizeRequired blkOffset blkSize ≤ mem.length) :
    memRequire rev mem blkOffset blkSize gas = some (mem, gas) := by
  rw [memRequire_eq, if_pos (Or.inr fits)]

/-- A request at 2^40 after the memory has grown to 2^33 + 32 bytes clamps and fits. -/
theorem requireAll_misses_clamped_offset :
    requireAll .aion [(32#128, BitVec.ofNat 128 (2 ^ 33)), (BitVec.ofNat 128 (2 ^ 40), 1#128)] []
        (memCost .aion (2 ^ 33 + 32)) = some (extend [] (2 ^ 33 + 32), 0) ∧
      (extend [] (2 ^ 33 + 32)).length < (BitVec.ofNat 128 (2 ^ 40)).toNat + (1#128).toNat := by
  have grown : (extend [] (2 ^ 33 + 32)).length = 2 ^ 33 + 32 := length_extend (by simp)
  have first : memRequire .aion [] 32#128 (BitVec.ofNat 128 (2 ^ 33)) (memCost .aion (2 ^ 33 + 32)) =
      some (extend [] (2 ^ 33 + 32), 0) := by
    have asked : sizeRequired 32#128 (BitVec.ofNat 128 (2 ^ 33)) = 2 ^ 33 + 32 := by decide
    have cost : resizeCost .aion 32#128 (BitVec.ofNat 128 (2 ^ 33)) ([] : List UInt8).length =
        memCost .aion (2 ^ 33 + 32) := by decide
    have paid : gasCheck (memCost .aion (2 ^ 33 + 32)) (memCost .aion (2 ^ 33 + 32)) = some 0 :=
      gasCheck_eq_some.mpr ⟨by omega, by omega⟩
    rw [memRequire_eq, asked, if_neg (by decide), cost, paid]
    rfl
  have second := @memRequire_of_sizeRequired_le .aion (extend [] (2 ^ 33 + 32))
    (BitVec.ofNat 128 (2 ^ 40)) 1#128 0 (by rw [grown]; decide)
  refine ⟨?_, by rw [grown]; decide⟩
  rw [requireAll_cons_of first, requireAll_cons_of second]
  rfl

/-! ## Copies

The size of a source is a `size_t`, whose truncation is itself. A `nuw` operation that wraps is
poison, `none`; `gas.check` branches on its cost, so a poison cost makes the run undefined. -/

inductive MemOutcome where
  | done (mem : List UInt8) (gas : Int)
  | outOfGas
  | outOfBounds
  | undefined
  deriving DecidableEq, Repr

def addNUW {w : Nat} (x y : BitVec w) : Option (BitVec w) :=
  if x.toNat + y.toNat < 2 ^ w then some (x + y) else none

def mulNUW {w : Nat} (x y : BitVec w) : Option (BitVec w) :=
  if x.toNat * y.toNat < 2 ^ w then some (x * y) else none

theorem addNUW_of_lt {w : Nat} {x y : BitVec w} (fits : x.toNat + y.toNat < 2 ^ w) :
    addNUW x y = some (x + y) :=
  if_pos fits

theorem mulNUW_of_lt {w : Nat} {x y : BitVec w} (fits : x.toNat * y.toNat < 2 ^ w) :
    mulNUW x y = some (x * y) :=
  if_pos fits

theorem mulNUW_of_le {w : Nat} {x y : BitVec w} (wraps : 2 ^ w ≤ x.toNat * y.toNat) :
    mulNUW x y = none :=
  if_neg (Nat.not_lt.mpr wraps)

/-- A `memcpy` or `memset`: `none` when it reaches past the memory. -/
def writeBytes (mem : List UInt8) (index : Nat) (bytes : List UInt8) : Option (List UInt8) :=
  if bytes = [] then some mem
  else if index + bytes.length ≤ mem.length then
    some (mem.take index ++ bytes ++ mem.drop (index + bytes.length))
  else none

def readBytes (src : List UInt8) (index count : Nat) : Option (List UInt8) :=
  if count = 0 then some []
  else if index + count ≤ src.length then some ((src.drop index).take count)
  else none

def copyWords (reqBytes : BitVec 64) : Option (BitVec 64) := (addNUW reqBytes 31#64).map (· / 32#64)

def countCopy (copyWords : BitVec 64) : Option Int := (mulNUW copyWords 3#64).map BitVec.toInt

def copyBytes (rev : Revision) (src : List UInt8) (srcIdx destMemIdx reqBytes : BitVec 128)
    (mem : List UInt8) (gas : Int) : MemOutcome :=
  match memRequire rev mem destMemIdx reqBytes gas with
  | none => .outOfGas
  | some (mem, gas) =>
    let reqBytes := reqBytes.setWidth 64
    match (copyWords reqBytes).bind countCopy with
    | none => .undefined
    | some cost =>
    match gasCheck gas cost with
    | none => .outOfGas
    | some gas =>
      let srcSize := BitVec.ofNat 128 src.length
      let isOutsideData := decide (srcSize ≤ srcIdx)
      let idx64 := srcIdx.setWidth 64
      let size64 := srcSize.setWidth 64
      -- safe if not isOutsideData
      let dataLeftSize := size64 - idx64
      let outOfBound := decide (dataLeftSize < reqBytes)
      let bytesToCopyInner := if outOfBound then dataLeftSize else reqBytes
      let bytesToCopy := if isOutsideData then 0#64 else bytesToCopyInner
      let bytesToZero := reqBytes - bytesToCopy
      let dstIdx := destMemIdx.setWidth 64
      let padIdx := dstIdx + bytesToCopy
      let copied := do
        let bytes ← readBytes src idx64.toNat bytesToCopy.toNat
        let mem ← writeBytes mem dstIdx.toNat bytes
        writeBytes mem padIdx.toNat (List.replicate bytesToZero.toNat 0)
      match copied with
      | none => .outOfBounds
      | some mem => .done mem gas

def copyBytesNoPadding (rev : Revision) (src : List UInt8) (srcIdx destMemIdx reqBytes : BitVec 128)
    (mem : List UInt8) (gas : Int) : MemOutcome :=
  match memRequire rev mem destMemIdx reqBytes gas with
  | none => .outOfGas
  | some (mem, gas) =>
    let reqBytes64 := reqBytes.setWidth 64
    let reqSize := srcIdx + reqBytes
    let overflow := decide (reqSize < reqBytes)
    let outOfRange := decide ((BitVec.ofNat 128 src.length) < reqSize)
    let bufferOverrun := overflow || outOfRange
    let penalty := BitVec.ofInt 64 gasMax
    -- the select drops a poison word count
    let cost := if bufferOverrun then some penalty else copyWords reqBytes64
    match cost.bind countCopy with
    | none => .undefined
    | some cost =>
    match gasCheck gas cost with
    | none => .outOfGas
    | some gas =>
      let srcIdx := srcIdx.setWidth 64
      let dstIdx := destMemIdx.setWidth 64
      let copied := do
        let bytes ← readBytes src srcIdx.toNat reqBytes64.toNat
        writeBytes mem dstIdx.toNat bytes
      match copied with
      | none => .outOfBounds
      | some mem => .done mem gas

def calldataload (callData : List UInt8) (idx : BitVec 128) : BitVec 128 :=
  let callDataSize := BitVec.ofNat 128 callData.length
  let callDataSize64 := callDataSize.setWidth 64
  let idxValid := decide (idx < callDataSize)
  let idx := (if idxValid then idx else callDataSize).setWidth 64
  let end_ := idx + 16#64
  let end_ := if end_ ≤ callDataSize64 then end_ else callDataSize64
  let copySize := end_ - idx
  let padSize := 16#64 - copySize
  let result := (callData.drop idx.toNat).take copySize.toNat ++ List.replicate padSize.toNat 0
  -- the load reads the first byte as the least significant on a little-endian host
  bswapIfLE 16 (BitVec.ofNat 128 (beValue result.reverse))

theorem writeBytes_of_lt {index : Nat} {bytes : List UInt8} (nonempty : bytes ≠ [])
    (past : mem.length < index + bytes.length) : writeBytes mem index bytes = none := by
  rw [writeBytes, if_neg nonempty, if_neg (by omega)]

theorem readBytes_of_le {src : List UInt8} {index count : Nat} (inside : index + count ≤ src.length) :
    readBytes src index count = some ((src.drop index).take count) := by
  unfold readBytes
  by_cases zero : count = 0
  · subst zero
    simp
  · rw [if_neg zero, if_pos inside]

def paddedWindow (src : List UInt8) (srcIdx count : Nat) : List UInt8 :=
  (List.range count).map fun i => src.getD (srcIdx + i) 0

@[simp] theorem length_paddedWindow (src : List UInt8) (srcIdx count : Nat) :
    (paddedWindow src srcIdx count).length = count := by
  simp [paddedWindow]

theorem writeBytes_of_le {index : Nat} {bytes : List UInt8} (fits : index + bytes.length ≤ mem.length) :
    writeBytes mem index bytes = some (mem.take index ++ bytes ++ mem.drop (index + bytes.length)) := by
  unfold writeBytes
  by_cases empty : bytes = []
  · subst empty
    simp
  · rw [if_neg empty, if_pos fits]

theorem length_write {index : Nat} {bytes : List UInt8} (fits : index + bytes.length ≤ mem.length) :
    (mem.take index ++ bytes ++ mem.drop (index + bytes.length)).length = mem.length := by
  simp only [List.length_append, List.length_take, List.length_drop]
  omega

theorem writeBytes_append (mem : List UInt8) (index : Nat) (first second : List UInt8) :
    (writeBytes mem index first).bind (fun mem => writeBytes mem (index + first.length) second) =
      writeBytes mem index (first ++ second) := by
  by_cases fitsBoth : index + first.length + second.length ≤ mem.length
  · have fitsFirst : index + first.length ≤ mem.length := by omega
    have front : (mem.take index ++ first).length = index + first.length := by
      simp only [List.length_append, List.length_take]
      omega
    rw [writeBytes_of_le fitsFirst, Option.bind_some,
      writeBytes_of_le (by rw [length_write fitsFirst]; exact fitsBoth),
      writeBytes_of_le (by rw [List.length_append]; omega)]
    rw [List.append_assoc (mem.take index) first, ← List.append_assoc (mem.take index) first,
      List.take_left' front, List.drop_append, List.drop_eq_nil_of_le (by omega), front,
      List.drop_drop]
    simp [Nat.add_assoc]
  · by_cases firstEmpty : first = []
    · subst firstEmpty
      simp [writeBytes]
    · have past : mem.length < index + (first ++ second).length := by
        rw [List.length_append]
        omega
      rw [writeBytes_of_lt (by simp [firstEmpty]) past]
      by_cases fitsFirst : index + first.length ≤ mem.length
      · -- the first write fits, so the second is the one that reaches past the end
        have secondNonempty : second ≠ [] := by
          intro empty
          rw [empty, List.length_nil, Nat.add_zero] at fitsBoth
          exact fitsBoth fitsFirst
        rw [writeBytes_of_le fitsFirst, Option.bind_some,
          writeBytes_of_lt secondNonempty (by rw [length_write fitsFirst]; omega)]
      · rw [writeBytes_of_lt firstEmpty (by omega), Option.bind_none]

theorem toNat_bytesToCopy (small : src.length < 2 ^ 64) (srcIdx : BitVec 128) (reqBytes : BitVec 64) :
    (if decide (BitVec.ofNat 128 src.length ≤ srcIdx) = true then 0#64
      else if decide ((BitVec.ofNat 128 src.length).setWidth 64 - srcIdx.setWidth 64 < reqBytes) = true
        then (BitVec.ofNat 128 src.length).setWidth 64 - srcIdx.setWidth 64
        else reqBytes).toNat =
      if src.length ≤ srcIdx.toNat then 0 else min (src.length - srcIdx.toNat) reqBytes.toNat := by
  have size : (BitVec.ofNat 128 src.length).toNat = src.length := Nat.mod_eq_of_lt (by omega)
  have size64 : ((BitVec.ofNat 128 src.length).setWidth 64).toNat = src.length := by
    rw [BitVec.toNat_setWidth, size, Nat.mod_eq_of_lt small]
  by_cases outside : src.length ≤ srcIdx.toNat
  · have past : BitVec.ofNat 128 src.length ≤ srcIdx := BitVec.le_def.mpr (by rw [size]; exact outside)
    simp [past, outside]
  · have idx : (srcIdx.setWidth 64).toNat = srcIdx.toNat := by
      rw [BitVec.toNat_setWidth]
      exact Nat.mod_eq_of_lt (by omega)
    have inside : ¬BitVec.ofNat 128 src.length ≤ srcIdx := by
      rw [BitVec.le_def, size]
      exact outside
    have left : ((BitVec.ofNat 128 src.length).setWidth 64 - srcIdx.setWidth 64).toNat =
        src.length - srcIdx.toNat := by
      rw [BitVec.toNat_sub_of_le (BitVec.le_def.mpr (by rw [size64, idx]; omega)), size64, idx]
    have shortIff : (BitVec.ofNat 128 src.length).setWidth 64 - srcIdx.setWidth 64 < reqBytes ↔
        src.length - srcIdx.toNat < reqBytes.toNat := by
      rw [BitVec.lt_def, left]
    simp only [decide_eq_true_eq, inside, if_false, outside, shortIff]
    split
    · rw [left]
      omega
    · omega

theorem window_eq {j k n : Nat} (srcIdx : Nat)
    (copied : k = if src.length ≤ srcIdx then 0 else min (src.length - srcIdx) n)
    (fromIdx : k ≠ 0 → j = srcIdx) :
    (src.drop j).take k ++ List.replicate (n - k) 0 = paddedWindow src srcIdx n := by
  have atMost : k ≤ n := by split at copied <;> omega
  have copiedLength : ((src.drop j).take k).length = k := by
    by_cases none : k = 0
    · simp [none]
    · rw [fromIdx none, List.length_take, List.length_drop]
      split at copied <;> omega
  apply List.ext_getElem?
  intro i
  simp only [paddedWindow, List.getElem?_map]
  by_cases inWindow : i < n
  · rw [List.getElem?_range inWindow, Option.map_some, List.getD_eq_getElem?_getD]
    by_cases fromSrc : i < k
    · -- a byte of the source
      rw [List.getElem?_append_left (by rw [copiedLength]; exact fromSrc), List.getElem?_take, if_pos fromSrc,
        List.getElem?_drop, fromIdx (by omega)]
      have present : srcIdx + i < src.length := by split at copied <;> omega
      rw [List.getElem?_eq_getElem present]
      rfl
    · -- a byte of padding, past the end of the source
      rw [List.getElem?_append_right (by omega), List.getElem?_replicate, copiedLength, if_pos (by omega),
        List.getElem?_eq_none (by split at copied <;> omega)]
      rfl
  · rw [List.getElem?_eq_none (by rw [List.length_append, copiedLength, List.length_replicate]; omega),
      List.getElem?_eq_none (by simp; omega)]
    rfl

theorem readBytes_eq_take {index count : Nat}
    (inside : count = 0 ∨ index + count ≤ src.length) :
    readBytes src index count = some ((src.drop index).take count) := by
  rcases inside with zero | fits
  · subst zero
    simp [readBytes]
  · exact readBytes_of_le fits

theorem copy_effect {copied reqBytes dst : BitVec 64} {index srcIdx : Nat}
    (count : copied.toNat = if src.length ≤ srcIdx then 0 else min (src.length - srcIdx) reqBytes.toNat)
    (fromIdx : copied.toNat ≠ 0 → index = srcIdx) (memSmall : mem1.length < 2 ^ 64) :
    (do
      let bytes ← readBytes src index copied.toNat
      let mem ← writeBytes mem1 dst.toNat bytes
      writeBytes mem (dst + copied).toNat (List.replicate (reqBytes - copied).toNat 0)) =
      writeBytes mem1 dst.toNat (paddedWindow src srcIdx reqBytes.toNat) := by
  have atMost : copied.toNat ≤ reqBytes.toNat := by split at count <;> omega
  have read : readBytes src index copied.toNat = some ((src.drop index).take copied.toNat) := by
    apply readBytes_eq_take
    by_cases none : copied.toNat = 0
    · exact Or.inl none
    · rw [fromIdx none]
      split at count <;> omega
  have length : ((src.drop index).take copied.toNat).length = copied.toNat := by
    by_cases none : copied.toNat = 0
    · simp [none]
    · rw [fromIdx none, List.length_take, List.length_drop]
      split at count <;> omega
  have padding : (reqBytes - copied).toNat = reqBytes.toNat - copied.toNat := by
    rw [BitVec.toNat_sub_of_le (BitVec.le_def.mpr atMost)]
  simp only [Option.bind_eq_bind]
  rw [read, Option.bind_some, padding, ← window_eq srcIdx count fromIdx]
  by_cases wraps : 2 ^ 64 ≤ dst.toNat + copied.toNat
  · -- the copy itself is past the end, and so is the window
    have nonempty : (src.drop index).take copied.toNat ≠ [] := by
      intro empty
      have := congrArg List.length empty
      rw [length] at this
      simp at this
      omega
    rw [writeBytes_of_lt nonempty (by omega), Option.bind_none,
      writeBytes_of_lt (by simp [nonempty]) (by simp only [List.length_append]; omega)]
  · have index' : (dst + copied).toNat = dst.toNat + ((src.drop index).take copied.toNat).length := by
      rw [BitVec.toNat_add, Nat.mod_eq_of_lt (by omega), length]
    rw [index', writeBytes_append]

theorem copyBytes_eq (required : memRequire rev mem destMemIdx reqBytes gas = some (mem1, gas1))
    (srcSmall : src.length < 2 ^ 64) (memSmall : mem1.length < 2 ^ 64)
    (priced : (copyWords (reqBytes.setWidth 64)).bind countCopy = some cost) :
    copyBytes rev src srcIdx destMemIdx reqBytes mem gas =
      match gasCheck gas1 cost with
      | none => .outOfGas
      | some gas2 =>
        match writeBytes mem1 (destMemIdx.setWidth 64).toNat
            (paddedWindow src srcIdx.toNat (reqBytes.setWidth 64).toNat) with
        | none => .outOfBounds
        | some mem2 => .done mem2 gas2 := by
  have count := toNat_bytesToCopy srcSmall srcIdx (reqBytes.setWidth 64)
  have fromIdx : ∀ copied : BitVec 64, copied.toNat = (if src.length ≤ srcIdx.toNat then 0
      else min (src.length - srcIdx.toNat) (reqBytes.setWidth 64).toNat) →
      copied.toNat ≠ 0 → (srcIdx.setWidth 64).toNat = srcIdx.toNat := by
    intro copied value copying
    rw [value] at copying
    rw [BitVec.toNat_setWidth]
    exact Nat.mod_eq_of_lt (by split at copying <;> omega)
  rw [copyBytes, required]
  dsimp only
  rw [priced]
  dsimp only
  split
  · rfl
  · rw [copy_effect count (fromIdx _ count) memSmall]

theorem countCopy_eq {reqBytes : BitVec 64} (small : reqBytes.toNat + 31 < 2 ^ 64) :
    (copyWords reqBytes).bind countCopy = some ((3 * ((reqBytes.toNat + 31) / 32) : Nat) : Int) := by
  have words : ((reqBytes + 31#64) / 32#64).toNat = (reqBytes.toNat + 31) / 32 := by
    rw [BitVec.toNat_udiv, BitVec.toNat_add, Nat.mod_eq_of_lt (by simpa using small)]
    rfl
  -- at most 2^59 words, so neither the add nor the multiply wraps
  have fits : ((reqBytes + 31#64) / 32#64).toNat * (3#64).toNat < 2 ^ 64 := by
    rw [words, BitVec.toNat_ofNat]
    omega
  have product : ((reqBytes + 31#64) / 32#64 * 3#64).toNat = 3 * ((reqBytes.toNat + 31) / 32) := by
    rw [BitVec.toNat_mul, Nat.mod_eq_of_lt fits, words, BitVec.toNat_ofNat]
    omega
  rw [copyWords, addNUW_of_lt (by simpa using small), Option.map_some, Option.bind_some, countCopy,
    mulNUW_of_lt fits, Option.map_some, BitVec.toInt_eq_toNat_of_lt (by rw [product]; omega), product]

theorem copyBytes_past_end (required : memRequire rev mem destMemIdx reqBytes gas = some (mem1, gas1))
    (srcSmall : src.length < 2 ^ 64) (memSmall : mem1.length < 2 ^ 64)
    (priced : (copyWords (reqBytes.setWidth 64)).bind countCopy = some cost)
    (paid : gasCheck gas1 cost = some gas2)
    (nonempty : (reqBytes.setWidth 64).toNat ≠ 0)
    (past : mem1.length < (destMemIdx.setWidth 64).toNat + (reqBytes.setWidth 64).toNat) :
    copyBytes rev src srcIdx destMemIdx reqBytes mem gas = .outOfBounds := by
  have window : paddedWindow src srcIdx.toNat (reqBytes.setWidth 64).toNat ≠ [] := by
    intro empty
    have := congrArg List.length empty
    simp only [length_paddedWindow, List.length_nil] at this
    exact nonempty this
  rw [copyBytes_eq required srcSmall memSmall priced, paid]
  dsimp only
  rw [writeBytes_of_lt window (by rw [length_paddedWindow]; exact past)]

theorem copyBytes_within (required : memRequire rev mem destMemIdx reqBytes gas = some (mem1, gas1))
    (srcSmall : src.length < 2 ^ 64) (memSmall : mem1.length < 2 ^ 64)
    (priced : (copyWords (reqBytes.setWidth 64)).bind countCopy = some cost)
    (paid : gasCheck gas1 cost = some gas2)
    (inside : (destMemIdx.setWidth 64).toNat + (reqBytes.setWidth 64).toNat ≤ mem1.length) :
    copyBytes rev src srcIdx destMemIdx reqBytes mem gas =
      .done (mem1.take (destMemIdx.setWidth 64).toNat ++
        paddedWindow src srcIdx.toNat (reqBytes.setWidth 64).toNat ++
        mem1.drop ((destMemIdx.setWidth 64).toNat + (reqBytes.setWidth 64).toNat)) gas2 := by
  rw [copyBytes_eq required srcSmall memSmall priced, paid]
  dsimp only
  rw [writeBytes_of_le (by rw [length_paddedWindow]; exact inside), length_paddedWindow]

/-- CALLDATACOPY of one byte to 2^40 after that growth writes past the memory. -/
theorem copyBytes_past_clamped_memory :
    copyBytes .aion [0xab] 0#128 (BitVec.ofNat 128 (2 ^ 40)) 1#128 (extend [] (2 ^ 33 + 32)) 3 =
      .outOfBounds := by
  have grown : (extend [] (2 ^ 33 + 32)).length = 2 ^ 33 + 32 := length_extend (by simp)
  have required := @memRequire_of_sizeRequired_le .aion (extend [] (2 ^ 33 + 32))
    (BitVec.ofNat 128 (2 ^ 40)) 1#128 3 (by rw [grown]; decide)
  have priced : (copyWords ((1#128).setWidth 64)).bind countCopy = some 3 := by
    rw [countCopy_eq (by decide)]
    rfl
  have paid : gasCheck 3 3 = some 0 := by decide
  exact copyBytes_past_end required (by decide) (by rw [grown]; decide) priced paid (by decide)
    (by rw [grown]; decide)

theorem countCopy_penalty : countCopy (BitVec.ofInt 64 gasMax) = none := by
  rw [countCopy, mulNUW_of_le (by decide), Option.map_none]

/-- A RETURNDATACOPY past the end of its source is undefined once its memory is paid for: the
`INT64_MAX` penalty times 3 wraps in the `mul nuw` of `countCopy`, and `gas.check` branches on it. -/
theorem copyBytesNoPadding_overrun_undefined
    (paidMemory : memRequire rev mem destMemIdx reqBytes gas ≠ none)
    (overrun : srcIdx + reqBytes < reqBytes ∨ BitVec.ofNat 128 src.length < srcIdx + reqBytes) :
    copyBytesNoPadding rev src srcIdx destMemIdx reqBytes mem gas = .undefined := by
  obtain ⟨⟨mem1, gas1⟩, required⟩ := Option.ne_none_iff_exists'.mp paidMemory
  have bufferOverrun : (decide (srcIdx + reqBytes < reqBytes) ||
      decide (BitVec.ofNat 128 src.length < srcIdx + reqBytes)) = true := by
    simpa using overrun
  rw [copyBytesNoPadding, required]
  dsimp only
  rw [if_pos bufferOverrun, Option.bind_some, countCopy_penalty]

theorem returndatacopy_past_empty_return_data :
    copyBytesNoPadding .aion [] 0#128 0#128 1#128 [] 10 = .undefined :=
  copyBytesNoPadding_overrun_undefined (by decide) (Or.inr (by decide))

end AionFastVM.Jit
