import InteropTables.Reader
import InteropTables.Signature.Types

/-!
# Decoding signatures

A signature blob is read from front to back. Types nest; every type and every method signature
opens one level, and the level `nestingLimit` is refused, so reading is a recursion on the number
of levels that may still be opened.

* `Signature.modifiers`: skips the custom modifiers that stand in front of a type;
* `Signature.typeWithin`, `Signature.methodWithin`: a type or method signature with room for so
  many levels;
* `Signature.type`, `Signature.method`: the same, with the room that the open levels leave;
* `Signature.decodeType`, `Signature.decodeMethod`: the meaning of a whole blob, bytes behind the
  signature being ignored.

A level is closed again after a type even when reading it failed; a method signature, and a level
beyond the limit, leave it open when they fail. Both show when one reader goes on after a failure.
-/

namespace InteropTables

namespace Signature

open Reader

/-! ## 1. Bytes with a meaning -/

/-- The level that is refused. -/
def nestingLimit : Nat := 50

/-- Marks a reference: in front of a parameter's type, or as part of a type. -/
def byRefCode : UInt8 := 0x10

/-- Stands in front of the first parameter that is not fixed. -/
def sentinelCode : UInt8 := 0x41

/-- The two bytes that announce a custom modifier, required or optional. -/
def isModifier (b : UInt8) : Bool :=
  b == 0x1F || b == 0x20

/-- Whether a byte announces a class or a value type. -/
def isNamed (b : UInt8) : Bool :=
  b == 0x11 || b == 0x12

/-! ## 2. Modifiers and parameters -/

/-- Skips modifiers as long as `clock` has elements; each modifier takes at least one byte, so the
bytes left are a clock that does not run out. -/
def modifiersWithin : (clock : List UInt8) → Reader Unit
  | [] => fun c => (.ok (), c)
  | _ :: clock => fun c =>
    match c.rest with
    | [] => (.ok (), c)
    | b :: rest =>
      if isModifier b then
        match token { c with rest, position := c.position + 1 } with
        | (.ok _, c') => modifiersWithin clock c'
        | (.error e, c') => (.error e, c')
      else (.ok (), c)

/-- Skips all custom modifiers that stand here. -/
def modifiers : Reader Unit :=
  fun c => modifiersWithin c.rest c

/-- A parameter: modifiers, perhaps the mark of a reference, and a type. -/
def parameter (type : Reader SigType) : Reader SigParam := do
  modifiers
  let b ← peek
  if b == byRefCode then
    skip
    return ⟨true, ← type⟩
  else
    return ⟨false, ← type⟩

/-- `n` parameters behind those already read (last one first). Parameters behind a sentinel, and
all that follow one of these, are no fixed ones. -/
def parametersOnto (param : Reader SigParam) :
    (n : Nat) → (fixed extra : List SigParam) → Reader (List SigParam × List SigParam)
  | 0, fixed, extra => fun c => (.ok (fixed.reverse, extra.reverse), c)
  | n + 1, fixed, extra => fun c =>
    match c.rest with
    | [] => (.error .outOfBounds, c)
    | b :: rest =>
      if b == sentinelCode then
        match param { c with rest, position := c.position + 1 } with
        | (.ok p, c') => parametersOnto param n fixed (p :: extra) c'
        | (.error e, c') => (.error e, c')
      else
        match param c with
        | (.ok p, c') =>
          if extra.isEmpty then parametersOnto param n (p :: fixed) extra c'
          else parametersOnto param n fixed (p :: extra) c'
        | (.error e, c') => (.error e, c')

/-- `n` parameters: the fixed ones and those behind the sentinel. -/
def parameters (param : Reader SigParam) (n : Nat) : Reader (List SigParam × List SigParam) :=
  parametersOnto param n [] []

/-! ## 3. Types and methods over their parts -/

/-- The rest of a type behind its first byte, given how to read inner types and signatures. -/
def typeBehind (type : Reader SigType) (method : Reader SigMethod) (lead : UInt8) :
    Reader SigType :=
  match lead with
  | 0x0F => do
    modifiers
    return .pointer (← type)
  | 0x10 => return .byRef (← type)
  | 0x11 => return .valueType (← token)
  | 0x12 => return .classType (← token)
  | 0x13 => return .typeVariable (← compressed)
  | 0x14 => do
    let element ← type
    let rank ← compressed
    let _ ← repeated compressed (← compressed)
    let _ ← repeated compressed (← compressed)
    return .array element rank
  | 0x15 => do
    let b ← peek
    if isNamed b then
      let base ← type
      let arguments ← repeated type (← compressed)
      return .instantiation base arguments
    else
      fail (.malformed (.genericBase b))
  | 0x1B => return .functionPointer (← method)
  | 0x1D => do
    modifiers
    return .vector (← type)
  | 0x1E => return .methodVariable (← compressed)
  | 0x45 => return .pinned (← type)
  | lead =>
    if isModifier lead then do
      let _ ← token
      modifiers
      type
    else
      match Element.ofCode lead with
      | some e => return .element e
      | none => fail (.malformed (.elementType lead))

/-- A type, given how to read inner types and signatures. -/
def typeOver (type : Reader SigType) (method : Reader SigMethod) : Reader SigType := do
  typeBehind type method (← next)

/-- Whether the low four bits of a first byte belong to a method; fields, local variables and
properties have signatures of their own. -/
def isMethodConvention (convention : Nat) : Bool :=
  !(convention == 6 || convention == 7 || convention == 8)

/-- A method signature, given how to read the types in it. -/
def methodOver (type : Reader SigType) : Reader SigMethod := do
  let lead ← next
  let convention := lead.toNat % 16
  if isMethodConvention convention then
    let genericCount ← if lead &&& 0x10 != 0 then compressed else pure 0
    let count ← compressed
    let result ← parameter type
    let (params, varargs) ← parameters (parameter type) count
    return {
      hasThis := lead &&& 0x20 != 0
      explicitThis := lead &&& 0x40 != 0
      convention, genericCount, result, params, varargs }
  else
    fail (.malformed (.callingConvention lead))

/-! ## 4. Nesting -/

/-- The refusal of a level beyond the limit; the level stays open. -/
def refused {α : Type} : Reader α := do
  deepen
  fail (.nestingLimit nestingLimit)

mutual

/-- A type, when at most `room` levels may still be opened. -/
def typeWithin : (room : Nat) → Reader SigType
  | 0 => refused
  | room + 1 => descend (typeOver (typeWithin room) (methodWithin room))

/-- A method signature, when at most `room` levels may still be opened. -/
def methodWithin : (room : Nat) → Reader SigMethod
  | 0 => refused
  | room + 1 => do
    deepen
    let m ← methodOver (typeWithin room)
    rise
    return m

end

/-- How many levels may be opened at a cursor. -/
def roomAt (c : Cursor) : Nat :=
  nestingLimit - 1 - c.depth

/-- A type. -/
def type : Reader SigType :=
  fun c => typeWithin (roomAt c) c

/-- A method signature. -/
def method : Reader SigMethod :=
  fun c => methodWithin (roomAt c) c

/-! ## 5. Whole blobs -/

/-- The type that a blob starts with. -/
def decodeType (blob : ByteArray) : Except Fault SigType :=
  (type (Cursor.ofBlock blob)).1

/-- The method signature that a blob starts with. -/
def decodeMethod (blob : ByteArray) : Except Fault SigMethod :=
  (method (Cursor.ofBlock blob)).1

end Signature

end InteropTables
