import InteropTables.Assembly.Basic
import InteropTables.Signature.Decode

/-!
# Naming the types of a signature

A type in a signature is named by following its parts. A token leads to the name of a row, or to a
type specification, whose blob is decoded and named in turn. Specifications may refer to each
other, so naming is bounded: every part and every specification is one level deeper, and the level
`namingLimit` is refused.

* `Assembly.describeWithin`: the names of a type, with room for so many levels;
* `Assembly.describeToken`: the names of a row, given how to name inner types;
* `Assembly.describe`: the names of a whole type; `Assembly.describeParameter`: of a parameter;
* `Assembly.methodDescriptor`: a method with all its types named.
-/

namespace InteropTables

/-- The level that is refused, in naming types and in following nested types. -/
def namingLimit : Nat := 64

/-- The names of a plain element type. -/
def Element.describe (e : Element) : TypeDescriptor :=
  match e with
  | .void => .void
  | .string => .named (.topLevel systemSpace "String") false
  | .object => .named (.topLevel systemSpace "Object") false
  | .typedReference => .named (.topLevel systemSpace "TypedReference") true
  | e => .primitive ((Element.primitiveName e).getD "")

namespace Assembly

/-- The names of a row that a token refers to. A specification is decoded and named by `inner`. -/
def describeToken (a : Assembly) (inner : SigType → Except Fault TypeDescriptor) (token : Token)
    (isValueType : Bool) : Except Fault TypeDescriptor :=
  let named (name? : Option TypeName) : Except Fault TypeDescriptor :=
    match name? with
    | some name => .ok (.named name isValueType)
    | none => .error (.malformed (.typeToken token))
  match token.table with
  | 0x02 => named ((rowOf? a.types token.row).map (·.name))
  | 0x01 => named (rowOf? a.references token.row)
  | 0x1B =>
    match rowOf? a.specifications token.row with
    | some blob => Signature.decodeType blob >>= inner
    | none => .error (.malformed (.typeSpecification token))
  | _ => named none

/-- The names of a type, when at most `room` levels may be opened. -/
def describeWithin (a : Assembly) : (room : Nat) → SigType → Except Fault TypeDescriptor
  | 0, _ => .error (.nestingLimit namingLimit)
  | room + 1, type =>
    match type with
    | .element e => .ok e.describe
    | .pointer t => (a.describeWithin room t).map (·.pointer)
    | .byRef t => (a.describeWithin room t).map (·.byRef)
    | .pinned t => a.describeWithin room t
    | .valueType token => a.describeToken (a.describeWithin room) token true
    | .classType token => a.describeToken (a.describeWithin room) token false
    | .typeVariable i => .ok (.genericParameter i false)
    | .methodVariable i => .ok (.genericParameter i true)
    | .array t rank => (a.describeWithin room t).map (·.array (max rank 1))
    | .vector t => (a.describeWithin room t).map (·.array 0)
    | .instantiation t ts => do
      let base ← a.describeWithin room t
      let arguments ← ts.mapM (a.describeWithin room)
      return base.instantiate arguments
    | .functionPointer _ => .ok .functionPointer

/-- The names of a type. -/
def describe (a : Assembly) (type : SigType) : Except Fault TypeDescriptor :=
  a.describeWithin namingLimit type

/-- The names of the type that a token refers to. -/
def describeRow (a : Assembly) (token : Token) (isValueType : Bool) : Except Fault TypeDescriptor :=
  a.describeToken (a.describeWithin (namingLimit - 1)) token isValueType

/-- The names of the type of a parameter or result. -/
def describeParameter (a : Assembly) (p : SigParam) : Except Fault TypeDescriptor :=
  (a.describe p.type).map fun t => if p.byRef then t.byRef else t

/-- The type that lists a method. -/
def declaringType? (a : Assembly) (m : Method) : Option TypeInfo :=
  m.declaring.bind fun i => a.types[i]?

/-- A method with the names of all types in its signature. -/
def methodDescriptor (a : Assembly) (index : Nat) : Except Fault MethodDescriptor :=
  match a.methods[index]? with
  | none => .error (.malformed (.methodIndex index))
  | some m =>
    match a.declaringType? m with
    | none => .error (.malformed (.orphanMethod m.token))
    | some declaring => do
      let signature ← Signature.decodeMethod m.signature
      let result ← a.describeParameter signature.result
      let parameters ← signature.arguments.mapM a.describeParameter
      return {
        declaring := declaring.name
        name := m.name
        result, parameters
        identity := a.identity
        token := m.token }

end Assembly

end InteropTables
