import InteropTables.Assembly.Descriptor

/-!
# Native spellings of types

Only single values cross the native boundary, so every type has one of six spellings on the native
side. It is chosen by the simple name of the type.

* `CType.ofName`: the native type for a simple name; names without one of their own become `int`;
* `CType.ofType`: the native type of a managed type;
* `CType.spelling`: how it is written.
-/

namespace InteropTables

/-- A native type. -/
inductive CType where
  | void
  | double
  | float
  | int64
  | uint64
  | int
deriving DecidableEq, Repr

namespace CType

/-- The native type for the simple name of a managed type. -/
def ofName (name : String) : CType :=
  if name = "Void" then .void
  else if name = "Double" then .double
  else if name = "Single" then .float
  else if name = "Int64" then .int64
  else if name = "UInt64" then .uint64
  else .int

/-- The native type of a managed type. -/
def ofType (t : TypeDescriptor) : CType :=
  ofName t.name

/-- How a native type is written. -/
def spelling : CType → String
  | void => "void"
  | double => "double"
  | float => "float"
  | int64 => "int64_t"
  | uint64 => "uint64_t"
  | int => "int"

/-- A function of this result type returns nothing. -/
def isVoid (t : CType) : Bool :=
  t == .void

/-- Different native types are written differently. -/
theorem spelling_injective {a b : CType} (h : a.spelling = b.spelling) : a = b := by
  cases a <;> cases b <;> first | rfl | exact absurd h (by decide)

theorem ofName_eq_void_iff {name : String} : ofName name = .void ↔ name = "Void" := by
  unfold ofName
  repeat' split
  all_goals simp_all

end CType

end InteropTables
