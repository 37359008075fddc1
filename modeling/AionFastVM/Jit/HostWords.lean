import AionFastVM.Jit.NestedExecute
import AionFastVM.Jit.Bitwise
import AionFastVM.Library.JavaBytes

/-!
# 256-bit words and log topics at the host boundary
-/

namespace AionFastVM.Jit
open AionFastVM.Library AionFastVM.Jni

def storeLE (n : Nat) (word : BitVec (8 * n)) : List UInt8 := (beBytes n word.toNat).reverse

def loadLE (n : Nat) (bytes : List UInt8) : BitVec (8 * n) :=
  BitVec.ofNat (8 * n) (beValue bytes.reverse)

@[simp] theorem length_storeLE (n : Nat) (word : BitVec (8 * n)) : (storeLE n word).length = n := by
  simp [storeLE]

theorem bswap_loadLE {n : Nat} {bytes : List UInt8} (length : bytes.length = n) :
    bswap n (loadLE n bytes) = BitVec.ofNat (8 * n) (beValue bytes) := by
  have fits := beValue_lt bytes.reverse
  have bytesPow : (256 : Nat) ^ n = 2 ^ (8 * n) := by rw [Nat.pow_mul]
  rw [List.length_reverse, length, bytesPow] at fits
  have loaded : (loadLE n bytes).toNat = beValue bytes.reverse := by
    rw [loadLE, BitVec.toNat_ofNat, Nat.mod_eq_of_lt fits]
  have back : beBytes n (beValue bytes.reverse) = bytes.reverse := by
    simpa [length] using beBytes_beValue bytes.reverse
  rw [bswap, loaded, back, List.reverse_reverse]

theorem storeLE_bswap (n : Nat) (word : BitVec (8 * n)) :
    storeLE n (bswap n word) = beBytes n word.toNat := by
  have back : beBytes n (beValue (beBytes n word.toNat).reverse) = (beBytes n word.toNat).reverse := by
    simpa using beBytes_beValue (beBytes n word.toNat).reverse
  rw [storeLE, toNat_bswap, back, List.reverse_reverse]

def nativeAddress (address : Address) : BitVec 256 := bswapIfLE 32 (loadLE 32 address.toList)

def hostAddress (word : BitVec 256) : List UInt8 := storeLE 32 (bswapIfLE 32 word)

def addressOperand (rt : RuntimeData) (tx : EvmTxContext) : Instruction → Option Address
  | .address => some rt.address
  | .caller => some rt.caller
  | .origin => some tx.txOrigin
  | .coinbase => some tx.blockCoinbase
  | _ => none

def compileAddress (rt : RuntimeData) (tx : EvmTxContext) (inst : Instruction)
    (stack : LocalStack (BitVec 128)) : Option (LocalStack (BitVec 128)) :=
  (addressOperand rt tx inst).map fun address => pushWord256 stack (nativeAddress address)

def hostAddressOperand (fetch : Int → BitVec 128) (inst : Instruction)
    (stack : LocalStack (BitVec 128)) : Option (List UInt8) :=
  match inst with
  | .balance | .extcodesize | .extcodecopy | .selfdestruct =>
    some (hostAddress (popWord256 fetch stack).1)
  | .call | .callcode | .delegatecall | .staticcall =>
    some (hostAddress (popWord256 fetch (stack.pop fetch).2).1)
  | _ => none

theorem length_hostAddress (word : BitVec 256) : (hostAddress word).length = 32 :=
  length_storeLE 32 _

def myAddr (address : Address) : Address :=
  ⟨hostAddress (nativeAddress address), length_hostAddress _⟩

theorem nativeAddress_eq (address : Address) :
    nativeAddress address = BitVec.ofNat 256 (beValue address.toList) :=
  bswap_loadLE address.toList_length

theorem hostAddress_eq (word : BitVec 256) : hostAddress word = beBytes 32 word.toNat :=
  storeLE_bswap 32 word

theorem hostAddress_nativeAddress (address : Address) :
    hostAddress (nativeAddress address) = address.toList := by
  have fits := beValue_lt address.toList
  rw [address.toList_length] at fits
  rw [hostAddress_eq, nativeAddress_eq, BitVec.toNat_ofNat, Nat.mod_eq_of_lt (by simpa using fits)]
  simpa using beBytes_beValue address.toList

theorem myAddr_eq (address : Address) : myAddr address = address := by
  apply List.Vector.eq
  rw [myAddr, List.Vector.toList_mk, hostAddress_nativeAddress]

theorem hostAddressOperand_pushWord256 (fetch : Int → BitVec 128) (stack : LocalStack (BitVec 128))
    (word : BitVec 256) (gas : BitVec 128) :
    (∀ inst ∈ [Instruction.balance, .extcodesize, .extcodecopy, .selfdestruct],
      hostAddressOperand fetch inst (pushWord256 stack word) = some (beBytes 32 word.toNat)) ∧
    (∀ inst ∈ [Instruction.call, .callcode, .delegatecall, .staticcall],
      hostAddressOperand fetch inst ((pushWord256 stack word).push gas) =
        some (beBytes 32 word.toNat)) := by
  have popped := popWord256_pushWord256 fetch stack word
  have underGas : (popWord256 fetch ((pushWord256 stack word).push gas |>.pop fetch).2).1 = word := by
    have top : ((pushWord256 stack word).push gas).locals =
        (stack.locals ++ [word.setWidth 128] ++ [(word >>> 128).setWidth 128]) ++ [gas] := by
      simp [LocalStack.push, locals_pushWord256]
    rw [popWord256_of_locals fetch (LocalStack.locals_pop_of_locals fetch top), join_halves]
  refine ⟨fun inst member => ?_, fun inst member => ?_⟩
  · simp only [List.mem_cons, List.not_mem_nil, or_false] at member
    rcases member with rfl | rfl | rfl | rfl <;> simp [hostAddressOperand, popped, hostAddress_eq]
  · simp only [List.mem_cons, List.not_mem_nil, or_false] at member
    rcases member with rfl | rfl | rfl | rfl <;> simp [hostAddressOperand, underGas, hostAddress_eq]

def popTopics (fetch : Int → BitVec 128) :
    Nat → List (BitVec 128) → LocalStack (BitVec 128) → List (BitVec 128) × LocalStack (BitVec 128)
  | 0, topics, stack => (topics, stack)
  | numTopics + 1, topics, stack =>
    let (first, stack) := stack.pop fetch
    let (second, stack) := stack.pop fetch
    popTopics fetch numTopics (topics ++ [first, second]) stack

def compileLog (fetch : Int → BitVec 128) (numTopics : Nat) (stack : LocalStack (BitVec 128)) :
    (BitVec 128 × BitVec 128 × List (BitVec 128)) × LocalStack (BitVec 128) :=
  let (beginIdx, stack) := stack.pop fetch
  let (numBytes, stack) := stack.pop fetch
  let (topics, stack) := popTopics fetch numTopics [] stack
  ((beginIdx, numBytes, topics), stack)

def beWord (t : BitVec 128) : DataWord := ⟨storeLE 16 (bswapIfLE 16 t), length_storeLE 16 _⟩

@[simp] theorem toList_beWord (t : BitVec 128) :
    (beWord t).toList = storeLE 16 (bswapIfLE 16 t) := by
  rw [beWord, List.Vector.toList_mk]

def extLog (address : Address) (memory : List UInt8) (memIdx numBytes : BitVec 128)
    (topics : List (BitVec 128)) : Address × List UInt8 × List DataWord × Nat :=
  let data := (memory.drop (memIdx.setWidth 64).toNat).take (numBytes.setWidth 64).toNat
  let words := topics.map beWord
  (myAddr address, data, words, topics.length)

structure LogRecord where
  address : List UInt8
  topics : List (List UInt8)
  data : List UInt8

def topicsFrom (topics : List UInt8) (i : Nat) : Option (List (List UInt8)) :=
  if i < topics.length then do
    let t ← copyOfRange topics i (i + 32)
    let rest ← topicsFrom topics (i + 32)
    pure (t :: rest)
  else pure []
termination_by topics.length - i

def callbackLog (address topics data : List UInt8) : Option LogRecord :=
  (topicsFrom topics 0).map fun list => ⟨address, list, data⟩

def jniLog (address : Address) (data : List UInt8) (topics : List DataWord) (topicsCount : Nat) :
    Option LogRecord :=
  callbackLog address.toList ((topics.flatMap List.Vector.toList).take (16 * topicsCount)) data

def recordLog (fetch : Int → BitVec 128) (numTopics : Nat) (address : Address) (memory : List UInt8)
    (stack : LocalStack (BitVec 128)) : Option LogRecord :=
  let ((beginIdx, numBytes, topics), _) := compileLog fetch numTopics stack
  let (myAddr, data, words, count) := extLog address memory beginIdx numBytes topics
  jniLog myAddr data words count

theorem popTopics_of_locals (fetch : Int → BitVec 128) (pairs : List (BitVec 128 × BitVec 128)) :
    ∀ (topics rest : List (BitVec 128)) (stack : LocalStack (BitVec 128)),
      stack.locals = rest ++ (pairs.flatMap fun p => [p.1, p.2]).reverse →
      (popTopics fetch pairs.length topics stack).1 = topics ++ pairs.flatMap fun p => [p.1, p.2] := by
  induction pairs with
  | nil => intro topics rest stack _; simp [popTopics]
  | cons pair pairs ih =>
    intro topics rest stack locals
    have top : stack.locals = (rest ++ (pairs.flatMap fun p => [p.1, p.2]).reverse ++ [pair.2]) ++
        [pair.1] := by
      simp [locals]
    have below := LocalStack.locals_pop_of_locals fetch top
    simp only [List.length_cons, popTopics]
    rw [LocalStack.pop_fst_of_locals fetch top, LocalStack.pop_fst_of_locals fetch below,
      ih _ rest _ (LocalStack.locals_pop_of_locals fetch below)]
    simp

theorem topicsFrom_flatten (chunks : List (List UInt8)) (sized : ∀ c ∈ chunks, c.length = 32) :
    ∀ front : List UInt8, topicsFrom (front ++ chunks.flatten) front.length = some chunks := by
  induction chunks with
  | nil => intro front; simp [topicsFrom]
  | cons chunk chunks ih =>
    intro front
    have chunkLength := sized chunk List.mem_cons_self
    have inside : front.length < (front ++ (chunk :: chunks).flatten).length := by
      simp [chunkLength]
    have copied : copyOfRange (front ++ (chunk :: chunks).flatten) front.length
        (front.length + 32) = some chunk := by
      have held : chunk <+: (front ++ (chunk :: chunks).flatten).drop front.length := by
        simp
      simpa [List.take_of_length_le, chunkLength] using
        copyOfRange_of_prefix_drop held (by simp) (show 32 ≤ chunk.length by omega)
    have rest := ih (fun c member => sized c (List.mem_cons_of_mem chunk member)) (front ++ chunk)
    rw [List.length_append, chunkLength, List.append_assoc] at rest
    rw [topicsFrom, if_pos inside, copied]
    simp [List.flatten_cons, rest]

theorem topicWords_pair (high low : BitVec 128) :
    storeLE 16 (bswapIfLE 16 high) ++ storeLE 16 (bswapIfLE 16 low) =
      beBytes 32 (high.toNat * 2 ^ 128 + low.toNat) := by
  have fits : low.toNat < 256 ^ 16 := low.isLt
  have swapped : isLittleEndianHost = true := rfl
  rw [bswapIfLE, bswapIfLE, if_pos swapped, if_pos swapped, storeLE_bswap, storeLE_bswap,
    show (2 : Nat) ^ 128 = 256 ^ 16 by norm_num, ← beBytes_mul_add fits]

theorem length_topicBytes (topics : List (BitVec 128)) :
    (topics.flatMap fun t => storeLE 16 (bswapIfLE 16 t)).length = 16 * topics.length := by
  induction topics with
  | nil => rfl
  | cons t topics ih =>
    rw [List.flatMap_cons, List.length_append, ih, length_storeLE, List.length_cons]
    omega

theorem flatMap_beWord (topics : List (BitVec 128)) :
    (topics.map beWord).flatMap List.Vector.toList =
      topics.flatMap fun t => storeLE 16 (bswapIfLE 16 t) := by
  induction topics with
  | nil => rfl
  | cons t topics ih => rw [List.map_cons, List.flatMap_cons, List.flatMap_cons, ih, toList_beWord]

theorem topicBytes_pairs (pairs : List (BitVec 128 × BitVec 128)) :
    ((pairs.flatMap fun p => [p.1, p.2]).flatMap fun t => storeLE 16 (bswapIfLE 16 t)) =
      (pairs.map fun p => beBytes 32 (p.1.toNat * 2 ^ 128 + p.2.toNat)).flatten := by
  induction pairs with
  | nil => rfl
  | cons pair pairs ih =>
    rw [List.flatMap_cons, List.flatMap_append, ih, List.map_cons, List.flatten_cons,
      ← topicWords_pair, List.flatMap_cons, List.flatMap_cons, List.flatMap_nil, List.append_nil,
      List.append_assoc]

theorem compileLog_fst (fetch : Int → BitVec 128) {stack : LocalStack (BitVec 128)}
    {rest : List (BitVec 128)} {pairs : List (BitVec 128 × BitVec 128)} {beginIdx numBytes : BitVec 128}
    (locals : stack.locals =
      rest ++ (pairs.flatMap fun p => [p.1, p.2]).reverse ++ [numBytes, beginIdx]) :
    (compileLog fetch pairs.length stack).1 =
      (beginIdx, numBytes, pairs.flatMap fun p => [p.1, p.2]) := by
  have top : stack.locals =
      (rest ++ (pairs.flatMap fun p => [p.1, p.2]).reverse ++ [numBytes]) ++ [beginIdx] := by
    simp [locals]
  have below := LocalStack.locals_pop_of_locals fetch top
  simp only [compileLog]
  rw [LocalStack.pop_fst_of_locals fetch top, LocalStack.pop_fst_of_locals fetch below,
    popTopics_of_locals fetch pairs [] rest _ (LocalStack.locals_pop_of_locals fetch below)]
  simp

theorem recordLog_eq (fetch : Int → BitVec 128) (address : Address) (memory : List UInt8)
    {stack : LocalStack (BitVec 128)} {rest : List (BitVec 128)}
    {pairs : List (BitVec 128 × BitVec 128)} {beginIdx numBytes : BitVec 128}
    (locals : stack.locals =
      rest ++ (pairs.flatMap fun p => [p.1, p.2]).reverse ++ [numBytes, beginIdx]) :
    recordLog fetch pairs.length address memory stack =
      some ⟨address.toList, pairs.map fun p => beBytes 32 (p.1.toNat * 2 ^ 128 + p.2.toNat),
        (memory.drop (beginIdx.setWidth 64).toNat).take (numBytes.setWidth 64).toNat⟩ := by
  have compiled := compileLog_fst fetch locals
  have sized : ∀ c ∈ pairs.map (fun p => beBytes 32 (p.1.toNat * 2 ^ 128 + p.2.toNat)),
      c.length = 32 := by
    intro c member
    obtain ⟨p, -, rfl⟩ := List.mem_map.mp member
    exact length_beBytes _ _
  have cut := topicsFrom_flatten _ sized []
  unfold recordLog
  generalize compileLog fetch pairs.length stack = out at compiled ⊢
  obtain ⟨first, stack'⟩ := out
  subst compiled
  simp only [extLog, jniLog, callbackLog, myAddr_eq]
  rw [flatMap_beWord, List.take_of_length_le (length_topicBytes _).le, topicBytes_pairs]
  rw [List.nil_append, List.length_nil] at cut
  rw [cut]
  rfl

/-- The words of ADDRESS and its kin, of PUSH17..PUSH32 and of LOG topics, as the host gets them. -/
theorem words256_reach_host (fetch : Int → BitVec 128) (stack : LocalStack (BitVec 128))
    (gas : BitVec 128) :
    (∀ (rt : RuntimeData) (tx : EvmTxContext) (source : Instruction) (address : Address),
      addressOperand rt tx source = some address →
      (∀ inst ∈ [Instruction.balance, .extcodesize, .extcodecopy, .selfdestruct],
        (compileAddress rt tx source stack).bind (hostAddressOperand fetch inst) =
          some address.toList) ∧
      (∀ inst ∈ [Instruction.call, .callcode, .delegatecall, .staticcall],
        (compileAddress rt tx source stack).bind
            (fun pushed => hostAddressOperand fetch inst (pushed.push gas)) =
          some address.toList)) ∧
    (∀ (code : List UInt8) (p endIdx : Nat) (op : UInt8), code[p]? = some op →
      0x70 ≤ op ∧ op ≤ 0x7f → skipPushDataAndGetNext code p ≤ endIdx → endIdx ≤ code.length →
      (∀ inst ∈ [Instruction.balance, .extcodesize, .extcodecopy, .selfdestruct],
        hostAddressOperand fetch inst (compilePush code p endIdx stack).1 =
          some (beBytes 32 (pushValue code p op))) ∧
      (∀ inst ∈ [Instruction.call, .callcode, .delegatecall, .staticcall],
        hostAddressOperand fetch inst ((compilePush code p endIdx stack).1.push gas) =
          some (beBytes 32 (pushValue code p op)))) ∧
    (∀ (address : Address) (memory : List UInt8) (rest : List (BitVec 128))
      (pairs : List (BitVec 128 × BitVec 128)) (beginIdx numBytes : BitVec 128),
      stack.locals = rest ++ (pairs.flatMap fun p => [p.1, p.2]).reverse ++ [numBytes, beginIdx] →
      recordLog fetch pairs.length address memory stack =
        some ⟨address.toList, pairs.map fun p => beBytes 32 (p.1.toNat * 2 ^ 128 + p.2.toNat),
          (memory.drop (beginIdx.setWidth 64).toNat).take (numBytes.setWidth 64).toNat⟩) := by
  refine ⟨fun rt tx source address read => ?_, fun code p endIdx op isPush wide fromNext inCode => ?_,
    fun address memory rest pairs beginIdx numBytes locals => recordLog_eq fetch address memory locals⟩
  · -- the address goes on the stack as its big-endian value, and comes back as its bytes
    have pushed : compileAddress rt tx source stack =
        some (pushWord256 stack (nativeAddress address)) := by
      simp [compileAddress, read]
    have bytes : beBytes 32 (nativeAddress address).toNat = address.toList :=
      (hostAddress_eq _).symm.trans (hostAddress_nativeAddress address)
    have consumers := hostAddressOperand_pushWord256 fetch stack (nativeAddress address) gas
    rw [bytes] at consumers
    simp only [pushed, Option.bind_some]
    exact consumers
  · -- the push value fits 256 bits and goes on the stack as two halves
    have low : 0x70 ≤ op.toNat := UInt8.le_iff_toNat_le.mp wide.1
    have inPush : 0x60 ≤ op ∧ op ≤ 0x7f :=
      ⟨UInt8.le_iff_toNat_le.mpr (by rw [show (0x60 : UInt8).toNat = 0x60 from rfl]; omega), wide.2⟩
    have many : 16 < numPushBytes op := by
      unfold numPushBytes
      omega
    have value := readPushData_fst isPush inPush fromNext inCode
    have fits := readPushData_lt isPush inPush fromNext inCode
    rw [value, pushWidth, if_pos many] at fits
    have pushed : (compilePush code p endIdx stack).1 =
        pushWord256 stack (BitVec.ofNat 256 (pushValue code p op)) := by
      rw [compilePush_eq isPush, if_pos many, value]
    have consumers :=
      hostAddressOperand_pushWord256 fetch stack (BitVec.ofNat 256 (pushValue code p op)) gas
    rw [BitVec.toNat_ofNat, Nat.mod_eq_of_lt fits] at consumers
    rw [pushed]
    exact consumers

end AionFastVM.Jit
