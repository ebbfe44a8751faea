import InteropTables.Token

/-!
# What a signature says

The decoded form of the signature blobs of methods and type specifications. A type is a plain
element type, a reference to a row by token, or built from other types; a method signature is part
of a type through function pointers, so the three types below are defined together.

* `Element`: the element types that stand alone, each with its byte (`Element.code`);
* `SigType`, `SigParam`, `SigMethod`: types, parameters and whole method signatures;
* `Element.ofCode`: the element type of a byte, if it stands alone;
* `SigType.nodes`: the number of types in a type, itself included;
* `SigMethod.arguments`: all parameters in their order.
-/

namespace InteropTables

/-! ## 1. Plain element types -/

/-- The element types that one byte describes completely. -/
inductive Element where
  | void
  | boolean
  | char
  | int8
  | uint8
  | int16
  | uint16
  | int32
  | uint32
  | int64
  | uint64
  | float32
  | float64
  | string
  | typedReference
  | nativeInt
  | nativeUInt
  | object
deriving DecidableEq, Repr

namespace Element

/-- The byte that stands for an element type. -/
def code : Element → UInt8
  | void => 0x01
  | boolean => 0x02
  | char => 0x03
  | int8 => 0x04
  | uint8 => 0x05
  | int16 => 0x06
  | uint16 => 0x07
  | int32 => 0x08
  | uint32 => 0x09
  | int64 => 0x0A
  | uint64 => 0x0B
  | float32 => 0x0C
  | float64 => 0x0D
  | string => 0x0E
  | typedReference => 0x16
  | nativeInt => 0x18
  | nativeUInt => 0x19
  | object => 0x1C

/-- All plain element types, by rising byte. -/
def all : List Element :=
  [void, boolean, char, int8, uint8, int16, uint16, int32, uint32, int64, uint64, float32, float64,
    string, typedReference, nativeInt, nativeUInt, object]

/-- The plain element type of a byte. -/
def ofCode (b : UInt8) : Option Element :=
  all.find? fun e => e.code == b

/-- The name that a primitive element type has in the namespace `System`. The void type, text,
objects and typed references are no primitives. -/
def primitiveName : Element → Option String
  | boolean => some "Boolean"
  | char => some "Char"
  | int8 => some "SByte"
  | uint8 => some "Byte"
  | int16 => some "Int16"
  | uint16 => some "UInt16"
  | int32 => some "Int32"
  | uint32 => some "UInt32"
  | int64 => some "Int64"
  | uint64 => some "UInt64"
  | float32 => some "Single"
  | float64 => some "Double"
  | nativeInt => some "IntPtr"
  | nativeUInt => some "UIntPtr"
  | _ => none

end Element

/-! ## 2. Types, parameters and methods -/

mutual

/-- A type in a signature. -/
inductive SigType where
  /-- A plain element type. -/
  | element (e : Element)
  /-- An unmanaged pointer. -/
  | pointer (target : SigType)
  /-- A managed reference inside a type. -/
  | byRef (target : SigType)
  /-- A type whose value is pinned in memory. -/
  | pinned (type : SigType)
  /-- A value type by its token. -/
  | valueType (token : Token)
  /-- A class by its token. -/
  | classType (token : Token)
  /-- A generic parameter of the declaring type, by position. -/
  | typeVariable (index : Nat)
  /-- A generic parameter of the method, by position. -/
  | methodVariable (index : Nat)
  /-- An array with a given number of dimensions. -/
  | array (element : SigType) (rank : Nat)
  /-- An array with one dimension that counts from zero. -/
  | vector (element : SigType)
  /-- A generic type applied to arguments. -/
  | instantiation (base : SigType) (arguments : List SigType)
  /-- A pointer to a function. -/
  | functionPointer (signature : SigMethod)

/-- A parameter or result: its type, and whether it is passed by reference. -/
structure SigParam where
  byRef : Bool
  type : SigType

/-- The signature of a method. -/
structure SigMethod where
  /-- The method is called on an instance. -/
  hasThis : Bool
  /-- The instance is listed among the parameters. -/
  explicitThis : Bool
  /-- How arguments are passed, the low four bits of the first byte. -/
  convention : Nat
  /-- The number of generic parameters. -/
  genericCount : Nat
  result : SigParam
  /-- The parameters in front of the sentinel. -/
  params : List SigParam
  /-- The parameters behind the sentinel. -/
  varargs : List SigParam

end

/-- The parameters in their order, fixed ones first. -/
def SigMethod.arguments (m : SigMethod) : List SigParam :=
  m.params ++ m.varargs

/-! ## 3. Size -/

mutual

/-- How many types a type consists of, itself included. -/
def SigType.nodes : SigType → Nat
  | .element _ => 1
  | .pointer t => t.nodes + 1
  | .byRef t => t.nodes + 1
  | .pinned t => t.nodes + 1
  | .valueType _ => 1
  | .classType _ => 1
  | .typeVariable _ => 1
  | .methodVariable _ => 1
  | .array t _ => t.nodes + 1
  | .vector t => t.nodes + 1
  | .instantiation t ts => t.nodes + nodesOfTypes ts + 1
  | .functionPointer m => m.nodes + 1

/-- How many types the type of a parameter consists of. -/
def SigParam.nodes : SigParam → Nat
  | ⟨_, t⟩ => t.nodes

/-- How many types stand in a method signature. -/
def SigMethod.nodes : SigMethod → Nat
  | ⟨_, _, _, _, r, ps, vs⟩ => r.nodes + nodesOfParams ps + nodesOfParams vs

/-- How many types a list of types consists of. -/
def nodesOfTypes : List SigType → Nat
  | [] => 0
  | t :: ts => t.nodes + nodesOfTypes ts

/-- How many types the types of a list of parameters consist of. -/
def nodesOfParams : List SigParam → Nat
  | [] => 0
  | p :: ps => p.nodes + nodesOfParams ps

end

end InteropTables
