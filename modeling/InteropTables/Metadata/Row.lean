import InteropTables.Metadata.Cells

/-!
# Typed rows

The rows of the tables that the library interprets, each as a structure of its own. A typed row is
made from the cells that `Cells.read` finds, so that exactly the bytes of the row are taken holds
for all of them at once; the other tables are only measured.

* `TableRow`: a type of rows of one table, made from the row number and the cells;
* `TableRow.token`: the token of a row;
* `ModuleRow`, …, `NestedClassRow`: the rows in use, by table number.
-/

namespace InteropTables

/-! ## 1. Rows made from cells -/

/-- A type of rows of one table, made from the row number and the cells. -/
class TableRow (ρ : Type) where
  /-- The table whose rows these are. -/
  table : TableId
  /-- The row with a given number and given cells. -/
  ofCells : (number : Nat) → Cells table.columns → ρ

/-- The token of a row. -/
def TableRow.token (ρ : Type) [TableRow ρ] (number : Nat) : Token :=
  Token.ofParts (TableRow.table ρ).number number

/-! ## 2. The rows in use -/

/-- The module itself. -/
structure ModuleRow where
  number : Nat
  generation : Nat
  name : Nat
  versionId : Nat
  editId : Nat
  editBaseId : Nat
deriving DecidableEq, Repr

instance : TableRow ModuleRow where
  table := .module
  ofCells number := fun (generation, name, versionId, editId, editBaseId, ()) =>
    { number, generation, name, versionId, editId, editBaseId }

/-- A type that is defined elsewhere. -/
structure TypeRefRow where
  number : Nat
  /-- Where the type is defined; inside another type reference if it is nested. -/
  scope : CodedIndex
  name : Nat
  /-- The namespace. -/
  space : Nat
deriving DecidableEq, Repr

instance : TableRow TypeRefRow where
  table := .typeRef
  ofCells number := fun (scope, name, space, ()) => { number, scope, name, space }

/-- A type that is defined in this module. -/
structure TypeDefRow where
  number : Nat
  flags : Nat
  name : Nat
  /-- The namespace. -/
  space : Nat
  /-- The type that this one extends. -/
  base : CodedIndex
  /-- The first of its fields. -/
  fieldList : Nat
  /-- The first of its methods. -/
  methodList : Nat
deriving DecidableEq, Repr

instance : TableRow TypeDefRow where
  table := .typeDef
  ofCells number := fun (flags, name, space, base, fieldList, methodList, ()) =>
    { number, flags, name, space, base, fieldList, methodList }

/-- An entry of the optional indirection between method lists and methods. -/
structure MethodPtrRow where
  number : Nat
  method : Nat
deriving DecidableEq, Repr

instance : TableRow MethodPtrRow where
  table := .methodPtr
  ofCells number := fun (method, ()) => { number, method }

/-- A method. -/
structure MethodDefRow where
  number : Nat
  address : Nat
  implFlags : Nat
  flags : Nat
  name : Nat
  signature : Nat
  paramList : Nat
deriving DecidableEq, Repr

instance : TableRow MethodDefRow where
  table := .methodDef
  ofCells number := fun (address, implFlags, flags, name, signature, paramList, ()) =>
    { number, address, implFlags, flags, name, signature, paramList }

/-- A member that is defined elsewhere, or a member of a constructed type. -/
structure MemberRefRow where
  number : Nat
  /-- What declares the member. -/
  parent : CodedIndex
  name : Nat
  signature : Nat
deriving DecidableEq, Repr

instance : TableRow MemberRefRow where
  table := .memberRef
  ofCells number := fun (parent, name, signature, ()) => { number, parent, name, signature }

/-- An attribute on some other row. -/
structure CustomAttributeRow where
  number : Nat
  /-- What the attribute is applied to. -/
  parent : CodedIndex
  /-- The constructor that makes the attribute. -/
  constructor : CodedIndex
  value : Nat
deriving DecidableEq, Repr

instance : TableRow CustomAttributeRow where
  table := .customAttribute
  ofCells number := fun (parent, made, value, ()) => { number, parent, constructor := made, value }

/-- Another module, possibly a native one. -/
structure ModuleRefRow where
  number : Nat
  name : Nat
deriving DecidableEq, Repr

instance : TableRow ModuleRefRow where
  table := .moduleRef
  ofCells number := fun (name, ()) => { number, name }

/-- A type given by a signature. -/
structure TypeSpecRow where
  number : Nat
  signature : Nat
deriving DecidableEq, Repr

instance : TableRow TypeSpecRow where
  table := .typeSpec
  ofCells number := fun (signature, ()) => { number, signature }

/-- The native function behind a member. -/
structure ImplMapRow where
  number : Nat
  flags : Nat
  /-- The member that is forwarded. -/
  member : CodedIndex
  /-- The name of the native function. -/
  importName : Nat
  /-- The row of the native module. -/
  importScope : Nat
deriving DecidableEq, Repr

instance : TableRow ImplMapRow where
  table := .implMap
  ofCells number := fun (flags, member, importName, importScope, ()) =>
    { number, flags, member, importName, importScope }

/-- The assembly that this module is the main module of. -/
structure AssemblyRow where
  number : Nat
  hashAlgorithm : Nat
  majorVersion : Nat
  minorVersion : Nat
  buildNumber : Nat
  revisionNumber : Nat
  flags : Nat
  publicKey : Nat
  name : Nat
  culture : Nat
deriving DecidableEq, Repr

instance : TableRow AssemblyRow where
  table := .assembly
  ofCells number := fun (hashAlgorithm, majorVersion, minorVersion, buildNumber, revisionNumber,
      flags, publicKey, name, culture, ()) =>
    { number, hashAlgorithm, majorVersion, minorVersion, buildNumber, revisionNumber, flags,
      publicKey, name, culture }

/-- A type inside another. -/
structure NestedClassRow where
  number : Nat
  nested : Nat
  enclosing : Nat
deriving DecidableEq, Repr

instance : TableRow NestedClassRow where
  table := .nestedClass
  ofCells number := fun (nested, enclosing, ()) => { number, nested, enclosing }

end InteropTables
