import AionFastVM.Library.JavaBytes

/-!
# The 16-byte Solidity ABI codec

`none` stands where Java throws. `Entry.fingerprintSignature`, the host's hash of the canonical
signature, is given with the function.
-/

namespace AionFastVM.Solidity
open AionFastVM.Library

inductive SolidityType where
  /-- `IntType` of a name that starts with `int` or `uint`, which its codec does not read -/
  | intType
  | boolType
  | addressType
  | bytesType
  | stringType
  | bytes32Type (size : Nat)
  | staticArrayType (elementType : SolidityType) (size : Nat)
  | dynamicArrayType (elementType : SolidityType)
  deriving DecidableEq, Repr

inductive AbiValue where
  | number (value : Int)
  | boolean (value : Bool)
  | bytes (value : List UInt8)
  | text (value : String)
  /-- an array or a `List` on the way in, an `Object[]` on the way out -/
  | array (elements : List AbiValue)
  deriving Repr

def trim (s : List Char) : List Char :=
  ((s.dropWhile (·.toNat ≤ 32)).reverse.dropWhile (·.toNat ≤ 32)).reverse

def digit (c : Char) (radix : Nat) : Option Nat :=
  let value :=
    if '0' ≤ c ∧ c ≤ '9' then some (c.toNat - '0'.toNat)
    else if 'a' ≤ c ∧ c ≤ 'z' then some (c.toNat - 'a'.toNat + 10)
    else if 'A' ≤ c ∧ c ≤ 'Z' then some (c.toNat - 'A'.toNat + 10)
    else none
  value.filter (· < radix)

def parseBigInteger (s : List Char) (radix : Nat) : Option Int :=
  let (negative, digits) :=
    match s with
    | '-' :: rest => (true, rest)
    | '+' :: rest => (false, rest)
    | _ => (false, s)
  if digits = [] then none
  else (digits.mapM (digit · radix)).map fun values =>
    let magnitude : Int := values.foldl (fun acc d => acc * radix + d) 0
    if negative then -magnitude else magnitude

def parseIntegerText (value : String) : Option Int :=
  let s := trim (value.toList.map Char.toLower)
  if s.take 2 = ['0', 'x'] then parseBigInteger (s.drop 2) 16
  else if s.any (fun c => c = 'a' || c = 'b' || c = 'c' || c = 'd' || c = 'e' || c = 'f') then
    parseBigInteger s 16
  else parseBigInteger s 10

def parseInt (s : List Char) : Option Int :=
  (parseBigInteger s 10).filter fun value => -2 ^ 31 ≤ value ∧ value < 2 ^ 31

def ignore (c : Char) : Bool := c = '\n' || c = '\r' || c = '\t' || c = ' '

def hexValue (c : Char) : Option Nat :=
  if '0' ≤ c ∧ c ≤ '9' then some (c.toNat - '0'.toNat)
  else if 'a' ≤ c ∧ c ≤ 'f' then some (c.toNat - 'a'.toNat + 10)
  else if 'A' ≤ c ∧ c ≤ 'F' then some (c.toNat - 'A'.toNat + 10)
  else none

def hexPairs : List Char → Option (List UInt8)
  | [] => some []
  | [_] => none
  | high :: low :: rest => do
    let b1 ← hexValue high
    let b2 ← hexValue low
    let bytes ← hexPairs rest
    pure (UInt8.ofNat (b1 * 16 + b2) :: bytes)

def hexDecode (data : String) : Option (List UInt8) :=
  hexPairs (data.toList.filter fun c => !ignore c)

def getBytes (s : String) : List UInt8 := s.toUTF8.data.toList

/-- `new String(bytes, UTF_8)`; Java's replacement of malformed bytes is left out. -/
def newString (bytes : List UInt8) : Option String := String.fromUTF8? ⟨bytes.toArray⟩

/-- A negative static size, which every value of the type fails, gives none here. -/
def arrayType (dim : List Char) (elementType : SolidityType) : Option SolidityType :=
  if dim = [] then some (.dynamicArrayType elementType)
  else (parseInt dim).bind fun size =>
    if 0 ≤ size then some (.staticArrayType elementType size.toNat) else none

theorem length_lt_of_split {typeName subDim : List Char} {close : Char}
    (split : ((typeName.dropWhile (· != '[')).drop 1).dropWhile (· != ']') = close :: subDim) :
    (typeName.takeWhile (· != '[') ++ subDim).length < typeName.length := by
  have whole := congrArg List.length (List.takeWhile_append_dropWhile (p := (· != '[')) (l := typeName))
  have inner := congrArg List.length (List.takeWhile_append_dropWhile (p := (· != ']'))
    (l := (typeName.dropWhile (· != '[')).drop 1))
  rw [split] at inner
  simp only [List.length_append, List.length_drop, List.length_cons] at whole inner ⊢
  omega

/-- `SolidityType.getType`: an array's name is cut at its first `[` and the first `]` after it. -/
def getType (typeName : List Char) : Option SolidityType :=
  if '[' ∈ typeName then
    let st := typeName.takeWhile (· != '[')
    match _split : ((typeName.dropWhile (· != '[')).drop 1).dropWhile (· != ']') with
    -- no `]`: the element's name is `st` and the whole name, and the constructors recurse until
    -- the stack overflows
    | [] => none
    | _ :: subDim =>
      let dim := ((typeName.dropWhile (· != '[')).drop 1).takeWhile (· != ']')
      (getType (st ++ subDim)).bind (arrayType dim)
  else if typeName = "bool".toList then some .boolType
  else if typeName.take 3 = "int".toList ∨ typeName.take 4 = "uint".toList then some .intType
  else if typeName = "address".toList then some .addressType
  else if typeName = "string".toList then some .stringType
  else if typeName = "bytes".toList then some .bytesType
  else if typeName.take 5 = "bytes".toList then
    (parseInt (typeName.drop 5)).bind fun size =>
      if 0 ≤ size then some (.bytes32Type size.toNat) else none
  else none
termination_by typeName.length
decreasing_by exact length_lt_of_split _split

theorem takeWhile_append_cons {c : Char} {xs : List Char} (absent : c ∉ xs) (ys : List Char) :
    (xs ++ c :: ys).takeWhile (· != c) = xs := by
  induction xs with
  | nil => simp
  | cons x xs ih =>
    have other : x ≠ c := fun same => absent (same ▸ List.mem_cons_self)
    simp [other, ih (fun held => absent (List.mem_cons_of_mem _ held))]

theorem dropWhile_append_cons {c : Char} {xs : List Char} (absent : c ∉ xs) (ys : List Char) :
    (xs ++ c :: ys).dropWhile (· != c) = c :: ys := by
  induction xs with
  | nil => simp
  | cons x xs ih =>
    have other : x ≠ c := fun same => absent (same ▸ List.mem_cons_self)
    simp [other, ih (fun held => absent (List.mem_cons_of_mem _ held))]

theorem getType_array {st dim subDim : List Char} (noOpen : '[' ∉ st) (noClose : ']' ∉ dim) :
    getType (st ++ '[' :: (dim ++ ']' :: subDim)) =
      (getType (st ++ subDim)).bind (arrayType dim) := by
  have opens : '[' ∈ st ++ '[' :: (dim ++ ']' :: subDim) := by simp
  rw [getType, if_pos opens]
  split
  next split =>
    simp [dropWhile_append_cons noOpen, dropWhile_append_cons noClose] at split
  next close rest split =>
    simp only [dropWhile_append_cons noOpen, List.drop_one, List.tail_cons,
      dropWhile_append_cons noClose, List.cons.injEq] at split
    obtain ⟨-, rfl⟩ := split
    simp only [takeWhile_append_cons noOpen, dropWhile_append_cons noOpen, List.drop_one,
      List.tail_cons, takeWhile_append_cons noClose]

def bigIntegerToBytesSigned (bigInteger : Int) (numBytes : Nat) : List UInt8 :=
  let fill : UInt8 := if bigInteger < 0 then 0xFF else 0x00
  let biBytes := toByteArray bigInteger
  let start := if biBytes.length = numBytes + 1 then 1 else 0
  let length := min biBytes.length numBytes
  List.replicate (numBytes - length) fill ++ (biBytes.drop start).take length

def encodeInt (bigInt : Int) : List UInt8 := bigIntegerToBytesSigned bigInt 16

def decodeInt (encoded : List UInt8) (offset : Int) : Option Int :=
  (copyOfRange encoded offset (offset + 16)).map ofByteArray

def bytesToBigInteger (bb : List UInt8) : Int := if bb.length = 0 then 0 else beValue bb

def paddedLength (length : Nat) : Nat := ((((length : Int) - 1).tdiv 16 + 1) * 16).toNat

namespace SolidityType

def getFixedSize : SolidityType → Nat
  | intType | boolType => 16
  | addressType => 32
  | bytesType | stringType => 16
  | bytes32Type size => if size > 16 then 32 else 16
  | staticArrayType elementType size => getFixedSize elementType * size
  | dynamicArrayType _ => 16

def isDynamicType : SolidityType → Bool
  | bytesType | stringType | dynamicArrayType _ => true
  | _ => false

end SolidityType

open SolidityType

def elementOffsets : Nat → List (List UInt8) → List Nat
  | _, [] => []
  | offset, encoded :: rest => offset :: elementOffsets (offset + paddedLength encoded.length) rest

def encodeDynamicList (dynamicElements : Bool) (elems : List (List UInt8)) : List UInt8 :=
  if dynamicElements then
    encodeInt elems.length ++ ((elementOffsets (elems.length * 16) elems).map fun (offset : Nat) =>
      encodeInt offset).flatten ++ elems.flatten
  else encodeInt elems.length ++ elems.flatten

def encodeBytes (bb : List UInt8) : List UInt8 :=
  encodeInt bb.length ++ bb ++ List.replicate (paddedLength bb.length - bb.length) 0

def arrayElements : AbiValue → Option (List AbiValue)
  | .array elements => some elements
  | .bytes bytes => some (bytes.map fun b => .number b.toInt8.toInt)
  | _ => none

def encode : SolidityType → AbiValue → Option (List UInt8)
  | intType, value =>
    match value with
    | .text s => (parseIntegerText s).map encodeInt
    | .number n => some (encodeInt n)
    | .bytes bb => some (encodeInt (bytesToBigInteger bb))
    | _ => none
  | boolType, value =>
    match value with
    | .boolean b => some (encodeInt (if b then 1 else 0))
    | _ => none
  | addressType, value =>
    match value with
    | .text s => if s.startsWith "0x" then none else if s.length ≠ 64 then none else hexDecode s
    | .bytes bytes => if bytes.length ≠ 32 then none else some bytes
    | _ => none
  | bytesType, value =>
    match value with
    | .bytes bb => some (encodeBytes bb)
    | _ => none
  | stringType, value =>
    match value with
    | .text s => some (encodeBytes (getBytes s))
    | _ => none
  | bytes32Type size, value =>
    match value with
    | .number n => some (encodeInt n)
    | .text s =>
      let bytes := getBytes s
      let length := if bytes.length > 16 then 32 else 16
      if bytes.length > length then none
      else some (bytes ++ List.replicate (length - bytes.length) 0)
    | .bytes bytes =>
      if bytes.length > size then none
      else some (bytes ++ List.replicate (paddedLength bytes.length - bytes.length) 0)
    | _ => some []
  | staticArrayType elementType size, value =>
    (arrayElements value).bind fun l =>
      if l.length ≠ size then none else (l.mapM (encode elementType)).map List.flatten
  | dynamicArrayType elementType, value =>
    (arrayElements value).bind fun l =>
      (l.mapM (encode elementType)).map (encodeDynamicList (isDynamicType elementType))

def decodeElements {β : Type} (read : Int → Option β) (step : Nat) : Nat → Int → Option (List β)
  | 0, _ => some []
  | count + 1, offset => do
    let first ← read offset
    let rest ← decodeElements read step count (offset + step)
    pure (first :: rest)

def decodeBytes (encoded : List UInt8) (offset : Int) : Option (List UInt8) := do
  let len := intValue (← decodeInt encoded offset)
  if len = 0 then pure [] else copyOfRange encoded (offset + 16) (offset + 16 + len)

def decode : SolidityType → List UInt8 → Int → Option AbiValue
  | intType, encoded, offset => (decodeInt encoded offset).map .number
  | boolType, encoded, offset => (decodeInt encoded offset).map fun n => .boolean (intValue n ≠ 0)
  | addressType, encoded, offset => (copyOfRange encoded offset (offset + 32)).map .bytes
  | bytesType, encoded, offset => (decodeBytes encoded offset).map .bytes
  | stringType, encoded, offset => (decodeBytes encoded offset).bind fun bytes => (newString bytes).map .text
  | bytes32Type size, encoded, offset => (copyOfRange encoded offset (offset + size)).map .bytes
  | staticArrayType elementType size, encoded, offset =>
    (decodeElements (decode elementType encoded) (getFixedSize elementType) size offset).map .array
  | dynamicArrayType elementType, encoded, origOffset => do
    let len := intValue (← decodeInt encoded origOffset)
    if len < 0 then none
    else
      let read : Int → Option AbiValue :=
        if isDynamicType elementType then fun offset => do
          decode elementType encoded (origOffset + 16 + intValue (← decodeInt encoded offset))
        else decode elementType encoded
      (decodeElements read (getFixedSize elementType) len.toNat (origOffset + 16)).map .array

def encodeArgumentsFrom : Nat → List (SolidityType × AbiValue) → Option (List UInt8 × List UInt8)
  | _, [] => some ([], [])
  | curDynamicPtr, (type, arg) :: rest =>
    if isDynamicType type then do
      let dynBB ← encode type arg
      let (heads, tails) ← encodeArgumentsFrom (curDynamicPtr + dynBB.length) rest
      pure (encodeInt curDynamicPtr ++ heads, dynBB ++ tails)
    else do
      let bb ← encode type arg
      let (heads, tails) ← encodeArgumentsFrom curDynamicPtr rest
      pure (bb ++ heads, tails)

def encodeArguments (inputs : List SolidityType) (args : List AbiValue) : Option (List UInt8) :=
  if inputs.length < args.length then none
  else
    let types := inputs.take args.length
    let staticSize := (types.map getFixedSize).sum
    (encodeArgumentsFrom staticSize (types.zip args)).map fun parts => parts.1 ++ parts.2

def decodeList : List SolidityType → List UInt8 → Int → Option (List AbiValue)
  | [], _, _ => some []
  | type :: params, encoded, offset => do
    let decoded ←
      if isDynamicType type then do decode type encoded (intValue (← decodeInt encoded offset))
      else decode type encoded offset
    let rest ← decodeList params encoded (offset + getFixedSize type)
    pure (decoded :: rest)

structure Function where
  inputs : List SolidityType
  fingerprint : List UInt8

namespace Function

def encodeSignature (f : Function) : List UInt8 := f.fingerprint.take 4

def encode (f : Function) (args : List AbiValue) : Option (List UInt8) :=
  (encodeArguments f.inputs args).map (f.encodeSignature ++ ·)

def decode (f : Function) (encoded : List UInt8) : Option (List AbiValue) :=
  decodeList f.inputs (encoded.drop 4) 0

end Function

end AionFastVM.Solidity
