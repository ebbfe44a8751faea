import InteropTables.Signature.Types

/-!
# Names of types and methods

How types and methods are named by reflection, together with what decides whether a value of the
type can pass to native code as it is.

* `joinName`: a simple name behind its namespace;
* `TypeName`: the names of a type that a row defines or refers to;
* `Flavor`, `TypeDescriptor`: the names of any type, and what kind of type it is;
* `TypeDescriptor.named`: recognises the void type and the primitive types by namespace and name;
* `MethodDescriptor`: a method with the names of all types in its signature;
* `MethodDescriptor.display`: the line by which a method is shown.
-/

namespace InteropTables

/-! ## 1. Names -/

/-- A simple name behind its namespace and a dot; alone when the namespace is empty. -/
def joinName (space name : String) : String :=
  if space.isEmpty then name else space ++ "." ++ name

/-- The names of a type that a row defines or refers to. -/
structure TypeName where
  /-- The namespace; of a nested type, that of the outermost type around it. -/
  space : String
  /-- The simple name. -/
  name : String
  /-- The full name, with the enclosing types in front of nested ones. -/
  full : String
deriving DecidableEq, Repr, Inhabited

namespace TypeName

/-- The names of a type at the top level. -/
def topLevel (space name : String) : TypeName :=
  ⟨space, name, joinName space name⟩

/-- The names of a type inside another one. -/
def nestedIn (enclosing : TypeName) (name : String) : TypeName :=
  ⟨enclosing.space, name, enclosing.full ++ "+" ++ name⟩

end TypeName

/-! ## 2. Types -/

/-- The kinds of type that the native side tells apart. -/
inductive Flavor where
  | void
  | primitive
  | byRef
  | pointer
  | valueType
  | classType
  | array
  | genericParameter
  | functionPointer
deriving DecidableEq, Repr, Inhabited

/-- A type by its names and its kind. -/
structure TypeDescriptor extends TypeName where
  flavor : Flavor
deriving DecidableEq, Repr, Inhabited

/-- The namespace of the primitive types. -/
def systemSpace : String := "System"

/-- The name of the void type. -/
def voidName : String := "Void"

/-- The simple names of the primitive types. -/
def primitiveNames : List String :=
  Element.all.filterMap Element.primitiveName

namespace TypeDescriptor

/-- A type at the top level. -/
def topLevel (space name : String) (flavor : Flavor) : TypeDescriptor :=
  { TypeName.topLevel space name with flavor }

/-- The void type. -/
def void : TypeDescriptor :=
  topLevel systemSpace voidName .void

/-- The primitive type with a given simple name. -/
def primitive (name : String) : TypeDescriptor :=
  topLevel systemSpace name .primitive

/-- The kind of a type that a row names: the void type and the primitive types are known by
namespace and simple name, every other type is what the signature says it is. -/
def flavorOf (name : TypeName) (isValueType : Bool) : Flavor :=
  if name.space = systemSpace ∧ name.name = voidName then .void
  else if name.space = systemSpace ∧ name.name ∈ primitiveNames then .primitive
  else if isValueType then .valueType
  else .classType

/-- A type that a row names. -/
def named (name : TypeName) (isValueType : Bool) : TypeDescriptor :=
  { name with flavor := flavorOf name isValueType }

/-- The type with a suffix on both of its names. -/
def withSuffix (t : TypeDescriptor) (suffix : String) (flavor : Flavor) : TypeDescriptor :=
  { t with name := t.name ++ suffix, full := t.full ++ suffix, flavor }

/-- A reference to a value of the type. -/
def byRef (t : TypeDescriptor) : TypeDescriptor :=
  t.withSuffix "&" .byRef

/-- A pointer to a value of the type. -/
def pointer (t : TypeDescriptor) : TypeDescriptor :=
  t.withSuffix "*" .pointer

/-- What an array of a given rank is marked with. Rank zero stands for the plain vector, and rank
one is told apart from it by a star. -/
def arraySuffix : (rank : Nat) → String
  | 0 => "[]"
  | 1 => "[*]"
  | rank + 2 => "[" ++ String.ofList (List.replicate (rank + 1) ',') ++ "]"

/-- An array of values of the type. -/
def array (t : TypeDescriptor) (rank : Nat) : TypeDescriptor :=
  t.withSuffix (arraySuffix rank) .array

/-- A generic parameter by its position, of a method or of a type. -/
def genericParameter (index : Nat) (ofMethod : Bool) : TypeDescriptor :=
  let name := (if ofMethod then "!!" else "!") ++ toString index
  ⟨⟨"", name, name⟩, .genericParameter⟩

/-- Any pointer to a function. -/
def functionPointer : TypeDescriptor :=
  topLevel "" "FunctionPointer" .functionPointer

/-- A generic type with the full names of its arguments. -/
def instantiate (t : TypeDescriptor) (arguments : List TypeDescriptor) : TypeDescriptor :=
  let listed := arguments.map fun a => "[" ++ a.full ++ "]"
  { t with full := t.full ++ "[" ++ ",".intercalate listed ++ "]" }

/-- The type is the void type. -/
def isVoid (t : TypeDescriptor) : Bool :=
  t.flavor == .void

/-- A value of the type has the same form on both sides of the native boundary. -/
def isBlittable (t : TypeDescriptor) : Bool :=
  t.flavor == .primitive || t.flavor == .byRef || t.flavor == .pointer

end TypeDescriptor

/-! ## 3. Methods -/

/-- A method with the names of all types in its signature. -/
structure MethodDescriptor where
  /-- The type that lists the method. -/
  declaring : TypeName
  name : String
  result : TypeDescriptor
  parameters : List TypeDescriptor
  /-- The name of the module that defines the method. -/
  identity : String
  token : Token
deriving DecidableEq, Repr, Inhabited

/-- The line by which a method is shown: simple names for the types of its signature, the full name
for the type that declares it. -/
def MethodDescriptor.display (m : MethodDescriptor) : String :=
  m.result.name ++ " " ++ m.declaring.full ++ "::" ++ m.name ++ "(" ++
    ", ".intercalate (m.parameters.map (·.name)) ++ ")"

end InteropTables
