import AionFastVM.Solidity.Words

/-!
# Reading back what was encoded
-/

namespace AionFastVM.Solidity
open AionFastVM.Library SolidityType

theorem shaped_of_encode {type : SolidityType} {value : AbiValue} {encoded : List UInt8}
    (fits : Fits type value) (made : encode type value = some encoded) : Shaped type encoded := by
  obtain ⟨other, madeOther, shaped⟩ := encode_shape fits
  rw [made, Option.some.injEq] at madeOther
  rwa [madeOther]

theorem newString_getBytes (s : String) : newString (getBytes s) = some s := by
  have valid : (⟨(getBytes s).toArray⟩ : ByteArray) = s.toByteArray := rfl
  rw [newString, valid, String.fromUTF8?, dif_pos s.isValidUTF8]
  rfl

theorem decodeBytes_of_prefix_drop {buffer bb : List UInt8} {offset : Nat}
    (held : encodeBytes bb <+: buffer.drop offset) (inside : offset ≤ buffer.length)
    (small : (encodeBytes bb).length < 2 ^ 31) : decodeBytes buffer offset = some bb := by
  have room := le_paddedLength bb.length
  rw [length_encodeBytes] at small
  rw [encodeBytes, List.append_assoc] at held
  have count := decodeInt_of_prefix_drop (by omega) (by omega) (prefix_drop_left held) inside
  have length : intValue bb.length = bb.length := intValue_of_lt (by omega) (by omega)
  have body := prefix_drop_right held
  rw [length_encodeInt] at body
  by_cases empty : bb.length = 0
  · simp [decodeBytes, count, List.eq_nil_of_length_eq_zero empty]
  · -- the length word is not 0: the bytes are copied from after it
    have copied := copyOfRange_of_prefix_drop body
      (by have := add_length_le_of_prefix_drop (prefix_drop_left held) inside; simp at this; omega)
      (show bb.length ≤ (bb ++ _).length by simp)
    push_cast at copied
    simp [decodeBytes, count, length, empty, copied]

def ReadsBack (type : SolidityType) (buffer : List UInt8) : Prop :=
  ∀ ⦃value : AbiValue⦄ ⦃encoded : List UInt8⦄ ⦃offset : Nat⦄, Fits type value →
    encode type value = some encoded → encoded.length < 2 ^ 31 →
    encoded <+: buffer.drop offset → offset ≤ buffer.length →
    decode type buffer offset = some (decoded type value)

theorem decodeElements_static {elementType : SolidityType} {buffer : List UInt8}
    (reads : ReadsBack elementType buffer) (static : isDynamicType elementType = false)
    {elements : List AbiValue} {encs : List (List UInt8)}
    (pairs : List.Forall₂ (fun element enc => encode elementType element = some enc) elements encs)
    (each : ∀ element ∈ elements, Fits elementType element) (small : encs.flatten.length < 2 ^ 31)
    {start : Nat} (held : encs.flatten <+: buffer.drop start) (inside : start ≤ buffer.length) :
    decodeElements (decode elementType buffer) (getFixedSize elementType) elements.length start =
      some (elements.map (decoded elementType)) := by
  -- the induction runs over the elements with their encodings, the start moving one element on
  induction pairs generalizing start with
  | nil => rfl
  | @cons element enc rest encsRest made _ ih =>
    have fits := each element List.mem_cons_self
    have sized := (shaped_of_encode fits made).static static
    rw [List.flatten_cons] at held small
    rw [List.length_append] at small
    have first := reads fits made (by omega) (prefix_drop_left held) inside
    have restHeld := prefix_drop_right held
    have restInside := add_length_le_of_prefix_drop (prefix_drop_left held) inside
    rw [sized] at restHeld restInside
    have others := ih (fun other member => each other (List.mem_cons_of_mem _ member)) (by omega)
      restHeld restInside
    push_cast at others
    simp [decodeElements, first, others]

theorem decodeElements_dynamic {elementType : SolidityType} {buffer : List UInt8}
    (reads : ReadsBack elementType buffer) (dynamic : isDynamicType elementType = true)
    {elements : List AbiValue} {encs : List (List UInt8)}
    (pairs : List.Forall₂ (fun element enc => encode elementType element = some enc) elements encs)
    (each : ∀ element ∈ elements, Fits elementType element) {origin base heads : Nat}
    (small : base + encs.flatten.length < 2 ^ 31)
    (headsHeld : ((elementOffsets base encs).map fun (offset : Nat) => encodeInt offset).flatten <+:
      buffer.drop heads)
    (headsInside : heads ≤ buffer.length)
    (bodiesHeld : encs.flatten <+: buffer.drop (origin + base))
    (bodiesInside : origin + base ≤ buffer.length) :
    decodeElements (fun offset => do
        decode elementType buffer ((origin : Int) + intValue (← decodeInt buffer offset)))
      16 elements.length heads = some (elements.map (decoded elementType)) := by
  -- the induction moves the heads one word on, and the base past one element's encoding
  induction pairs generalizing base heads with
  | nil => rfl
  | @cons element enc rest encsRest made _ ih =>
    have fits := each element List.mem_cons_self
    have shaped := shaped_of_encode fits made
    have padded : paddedLength enc.length = enc.length :=
      paddedLength_of_dvd shaped.words (by have := shaped.dynamic dynamic; omega)
    rw [elementOffsets, padded, List.map_cons, List.flatten_cons] at headsHeld
    rw [List.flatten_cons] at bodiesHeld
    rw [List.flatten_cons, List.length_append] at small
    have offset := decodeInt_of_prefix_drop (by omega) (by omega) (prefix_drop_left headsHeld) headsInside
    have target : intValue base = base := intValue_of_lt (by omega) (by omega)
    have first := reads fits made (by omega) (prefix_drop_left bodiesHeld) bodiesInside
    have restHeads := prefix_drop_right headsHeld
    have restHeadsInside := add_length_le_of_prefix_drop (prefix_drop_left headsHeld) headsInside
    have restBodies := prefix_drop_right bodiesHeld
    have restBodiesInside := add_length_le_of_prefix_drop (prefix_drop_left bodiesHeld) bodiesInside
    rw [length_encodeInt] at restHeads restHeadsInside
    rw [Nat.add_assoc] at restBodies restBodiesInside
    have others := ih (fun other member => each other (List.mem_cons_of_mem _ member)) (by omega)
      restHeads restHeadsInside restBodies restBodiesInside
    push_cast at first
    simp only [Option.bind_eq_bind, Nat.cast_add, Nat.cast_ofNat] at others
    simp [decodeElements, offset, target, first, others]

theorem decode_encode (buffer : List UInt8) (type : SolidityType) : ReadsBack type buffer := by
  induction type with
  | intType =>
    intro value encoded offset fits made small held inside
    cases value <;> simp only [Fits] at fits
    case number n =>
      simp only [encode, Option.some.injEq] at made
      subst made
      simp [decode, decodeInt_of_prefix_drop fits.1 fits.2 held inside, decoded]
  | boolType =>
    intro value encoded offset fits made small held inside
    cases value <;> simp only [Fits] at fits
    case boolean b =>
      simp only [encode, Option.some.injEq] at made
      subst made
      cases b
      · simp [decode, decodeInt_of_prefix_drop (by decide) (by decide) held inside, decoded]
      · simp [decode, decodeInt_of_prefix_drop (by decide) (by decide) held inside, decoded,
          intValue_of_lt]
  | addressType =>
    intro value encoded offset fits made small held inside
    cases value <;> simp only [Fits] at fits
    case bytes bytes =>
      simp only [encode, fits, ne_eq, not_true_eq_false, if_false, Option.some.injEq] at made
      subst made
      have copied := copyOfRange_of_prefix_drop held inside (show 32 ≤ bytes.length by omega)
      simp only [Nat.cast_ofNat] at copied
      simp [decode, copied, List.take_of_length_le (show bytes.length ≤ 32 by omega), decoded]
  | bytesType =>
    intro value encoded offset fits made small held inside
    cases value <;> simp only [Fits] at fits
    case bytes bb =>
      simp only [encode, Option.some.injEq] at made
      subst made
      simp [decode, decodeBytes_of_prefix_drop held inside small, decoded]
  | stringType =>
    intro value encoded offset fits made small held inside
    cases value <;> simp only [Fits] at fits
    case text s =>
      simp only [encode, Option.some.injEq] at made
      subst made
      simp [decode, decodeBytes_of_prefix_drop held inside small, newString_getBytes, decoded]
  | bytes32Type size =>
    intro value encoded offset fits made small held inside
    cases value <;> simp only [Fits] at fits
    case bytes bytes =>
      obtain ⟨short, room⟩ := fits
      simp only [encode, gt_iff_lt, Nat.not_lt.mpr short, if_false, Option.some.injEq] at made
      subst made
      have cover : size ≤ paddedLength bytes.length := by
        rcases room with small | ⟨long, most⟩
        · have := sixteen_le_paddedLength bytes.length
          omega
        · rw [paddedLength_of_le_32 long (by omega)]
          exact most
      have copied := copyOfRange_of_prefix_drop held inside
        (show size ≤ (bytes ++ List.replicate (paddedLength bytes.length - bytes.length) 0).length
          by simp; omega)
      simp [decode, copied, List.take_append, List.take_of_length_le short, List.take_replicate,
        decoded, Nat.min_eq_left (Nat.sub_le_sub_right cover _)]
  | staticArrayType elementType size ih =>
    intro value encoded offset fits made small held inside
    cases value <;> simp only [Fits] at fits
    case array elements =>
      obtain ⟨count, static, each⟩ := fits
      simp only [encode, arrayElements, Option.bind_some, count, ne_eq, not_true_eq_false,
        if_false, Option.map_eq_some_iff] at made
      obtain ⟨encs, madeAll, rfl⟩ := made
      subst count
      simp [decode, decodeElements_static ih static (forall₂_of_mapM madeAll) each small held inside,
        decoded]
  | dynamicArrayType elementType ih =>
    intro value encoded offset fits made small held inside
    cases value <;> simp only [Fits] at fits
    case array elements =>
      obtain ⟨many, each⟩ := fits
      simp only [encode, arrayElements, Option.bind_some, Option.map_eq_some_iff] at made
      obtain ⟨encs, madeAll, rfl⟩ := made
      have pairs := forall₂_of_mapM madeAll
      have sameLength : encs.length = elements.length := pairs.length_eq.symm
      rw [length_encodeDynamicList] at small
      have lengthWord : encodeInt encs.length <+: buffer.drop offset := by
        unfold encodeDynamicList at held
        split at held <;> exact prefix_drop_left (by simpa only [List.append_assoc] using held)
      have count := decodeInt_of_prefix_drop (by omega) (by omega) lengthWord inside
      have length : intValue encs.length = encs.length := intValue_of_lt (by omega) (by omega)
      rw [sameLength] at count length
      cases dynamic : isDynamicType elementType
      · -- static elements follow the length word
        rw [encodeDynamicList, if_neg (by simp [dynamic])] at held
        have body := prefix_drop_right held
        have bodyInside := add_length_le_of_prefix_drop (prefix_drop_left held) inside
        rw [length_encodeInt] at body bodyInside
        rw [if_neg (by simp [dynamic])] at small
        have read := decodeElements_static ih dynamic pairs each (by omega) body bodyInside
        push_cast at read
        simp [decode, count, length, dynamic, read, decoded]
      · -- the offsets follow the length word, and the elements follow the offsets
        rw [encodeDynamicList, if_pos dynamic, List.append_assoc] at held
        have tail := prefix_drop_right held
        have tailInside := add_length_le_of_prefix_drop (prefix_drop_left held) inside
        rw [length_encodeInt] at tail tailInside
        have bodies := prefix_drop_right tail
        have bodiesInside := add_length_le_of_prefix_drop (prefix_drop_left tail) tailInside
        rw [length_flatten_encodeInt, length_elementOffsets, Nat.mul_comm] at bodies
        rw [length_flatten_encodeInt, length_elementOffsets, Nat.mul_comm]
          at bodiesInside
        rw [if_pos dynamic] at small
        have read := decodeElements_dynamic ih dynamic pairs each (by omega) (prefix_drop_left tail)
          tailInside bodies bodiesInside
        simp only [Option.bind_eq_bind, Nat.cast_add, Nat.cast_ofNat] at read
        simp [decode, count, length, dynamic, isDynamicType_getFixedSize dynamic, read, decoded]

theorem encodeArgumentsFrom_cons_eq_some {curDynamicPtr : Nat} {type : SolidityType}
    {arg : AbiValue} {rest : List (SolidityType × AbiValue)} {heads tails : List UInt8}
    (made : encodeArgumentsFrom curDynamicPtr ((type, arg) :: rest) = some (heads, tails)) :
    ∃ bb restHeads restTails, encode type arg = some bb ∧
      if isDynamicType type then
        encodeArgumentsFrom (curDynamicPtr + bb.length) rest = some (restHeads, restTails) ∧
          heads = encodeInt curDynamicPtr ++ restHeads ∧ tails = bb ++ restTails
      else encodeArgumentsFrom curDynamicPtr rest = some (restHeads, restTails) ∧
          heads = bb ++ restHeads ∧ tails = restTails := by
  unfold encodeArgumentsFrom at made
  split at made
  all_goals
    simp only [Option.bind_eq_bind, Option.bind_eq_some_iff, Option.pure_def, Option.some.injEq,
      Prod.mk.injEq] at made
    obtain ⟨bb, madeArg, ⟨restHeads, restTails⟩, madeRest, sameHeads, sameTails⟩ := made
    exact ⟨bb, restHeads, restTails, madeArg, by simp_all⟩

theorem encodeArgumentsFrom_shape (pairs : List (SolidityType × AbiValue))
    (fits : ∀ p ∈ pairs, Fits p.1 p.2) (curDynamicPtr : Nat) :
    ∃ heads tails, encodeArgumentsFrom curDynamicPtr pairs = some (heads, tails) ∧
      heads.length = (pairs.map fun p => getFixedSize p.1).sum := by
  induction pairs generalizing curDynamicPtr with
  | nil => exact ⟨[], [], rfl, rfl⟩
  | cons pair rest ih =>
    obtain ⟨type, arg⟩ := pair
    obtain ⟨bb, made, shaped⟩ := encode_shape (fits (type, arg) List.mem_cons_self)
    have others := ih fun p member => fits p (List.mem_cons_of_mem _ member)
    cases dynamic : isDynamicType type
    · -- a static argument's encoding is its head
      obtain ⟨heads, tails, madeRest, length⟩ := others curDynamicPtr
      refine ⟨bb ++ heads, tails, by simp [encodeArgumentsFrom, dynamic, made, madeRest], ?_⟩
      simp [length, shaped.static dynamic]
    · -- a dynamic argument's head is the offset of its encoding among the tails
      obtain ⟨heads, tails, madeRest, length⟩ := others (curDynamicPtr + bb.length)
      refine ⟨encodeInt curDynamicPtr ++ heads, bb ++ tails,
        by simp [encodeArgumentsFrom, dynamic, made, madeRest], ?_⟩
      simp [length, isDynamicType_getFixedSize dynamic]

theorem decodeList_encodeArgumentsFrom {buffer : List UInt8} (small : buffer.length < 2 ^ 31)
    {pairs : List (SolidityType × AbiValue)} (fits : ∀ p ∈ pairs, Fits p.1 p.2)
    {curDynamicPtr : Nat} {heads tails : List UInt8}
    (made : encodeArgumentsFrom curDynamicPtr pairs = some (heads, tails)) {cursor : Nat}
    (headsHeld : heads <+: buffer.drop cursor) (headsInside : cursor ≤ buffer.length)
    (tailsHeld : tails <+: buffer.drop curDynamicPtr) (tailsInside : curDynamicPtr ≤ buffer.length) :
    decodeList (pairs.map Prod.fst) buffer cursor = some (pairs.map fun p => decoded p.1 p.2) := by
  -- the induction moves the cursor past one head, and the pointer past a dynamic argument
  induction pairs generalizing curDynamicPtr heads tails cursor with
  | nil => rfl
  | cons pair rest ih =>
    obtain ⟨type, arg⟩ := pair
    have fitsArg := fits (type, arg) List.mem_cons_self
    have fitsRest : ∀ p ∈ rest, Fits p.1 p.2 := fun p member => fits p (List.mem_cons_of_mem _ member)
    obtain ⟨bb, restHeads, restTails, madeArg, branch⟩ := encodeArgumentsFrom_cons_eq_some made
    cases dynamic : isDynamicType type
    · -- a static argument is read from its head
      rw [if_neg (by simp [dynamic])] at branch
      obtain ⟨madeRest, rfl, rfl⟩ := branch
      have sized := (shaped_of_encode fitsArg madeArg).static dynamic
      have within := add_length_le_of_prefix_drop (prefix_drop_left headsHeld) headsInside
      have first := decode_encode buffer type fitsArg madeArg (by omega) (prefix_drop_left headsHeld)
        headsInside
      have restHeadsHeld := prefix_drop_right headsHeld
      rw [sized] at restHeadsHeld within
      have others := ih fitsRest madeRest restHeadsHeld within tailsHeld tailsInside
      push_cast at others
      simp [decodeList, dynamic, first, others]
    · -- a dynamic argument is read from the offset its head holds
      rw [if_pos dynamic] at branch
      obtain ⟨madeRest, rfl, rfl⟩ := branch
      have pointer := decodeInt_of_prefix_drop (by omega) (by omega) (prefix_drop_left headsHeld)
        headsInside
      have target : intValue curDynamicPtr = curDynamicPtr := intValue_of_lt (by omega) (by omega)
      have within := add_length_le_of_prefix_drop (prefix_drop_left tailsHeld) tailsInside
      have first := decode_encode buffer type fitsArg madeArg (by omega) (prefix_drop_left tailsHeld)
        tailsInside
      have restHeadsHeld := prefix_drop_right headsHeld
      have restHeadsInside := add_length_le_of_prefix_drop (prefix_drop_left headsHeld) headsInside
      rw [length_encodeInt] at restHeadsHeld restHeadsInside
      have others := ih fitsRest madeRest restHeadsHeld restHeadsInside (prefix_drop_right tailsHeld)
        within
      push_cast at others
      simp [decodeList, dynamic, pointer, target, first, others, isDynamicType_getFixedSize dynamic]

theorem decode_encode_function (f : Function) (args : List AbiValue)
    (signed : 4 ≤ f.fingerprint.length) (arity : args.length = f.inputs.length)
    (fits : ∀ p ∈ f.inputs.zip args, Fits p.1 p.2) :
    ∃ encoded, f.encode args = some encoded ∧
      (encoded.length < 2 ^ 31 → f.decode encoded = some (List.zipWith decoded f.inputs args)) := by
  obtain ⟨heads, tails, made, length⟩ := encodeArgumentsFrom_shape _ fits
    (f.inputs.map getFixedSize).sum
  have firsts : (f.inputs.zip args).map Prod.fst = f.inputs := List.map_fst_zip (by omega)
  have types : (f.inputs.zip args).map (fun p => getFixedSize p.1) = f.inputs.map getFixedSize :=
    calc (f.inputs.zip args).map (fun p => getFixedSize p.1)
        = ((f.inputs.zip args).map Prod.fst).map getFixedSize := by rw [List.map_map]; rfl
      _ = f.inputs.map getFixedSize := by rw [firsts]
  rw [types] at length
  refine ⟨f.encodeSignature ++ (heads ++ tails), ?_, fun small => ?_⟩
  · simp [Function.encode, encodeArguments, arity, made]
  · -- the arguments follow the four bytes of the signature, their heads first
    have signature : f.encodeSignature.length = 4 := by simp [Function.encodeSignature]; omega
    have total : (heads ++ tails).length < 2 ^ 31 := by simp at small ⊢; omega
    have read := decodeList_encodeArgumentsFrom total fits made
      (show heads <+: (heads ++ tails).drop 0 by simp) (Nat.zero_le _)
      (show tails <+: (heads ++ tails).drop (f.inputs.map getFixedSize).sum by simp [← length])
      (by simp; omega)
    rw [firsts, List.map_zip_eq_zipWith, Nat.cast_zero] at read
    rw [Function.decode, List.drop_left' signature, read]
    rfl

def roundTrip (names : List (List Char)) (fingerprint : List UInt8) (args : List AbiValue) :
    Option (List AbiValue) :=
  (names.mapM getType).bind fun inputs =>
    let f : Function := ⟨inputs, fingerprint⟩
    (f.encode args).bind f.decode

theorem roundTrip_of_mapM {names : List (List Char)} {inputs : List SolidityType}
    (types : names.mapM getType = some inputs) (fingerprint : List UInt8) (args : List AbiValue) :
    roundTrip names fingerprint args =
      ((⟨inputs, fingerprint⟩ : Function).encode args).bind (Function.decode ⟨inputs, fingerprint⟩) := by
  rw [roundTrip, types, Option.bind_some]

end AionFastVM.Solidity
