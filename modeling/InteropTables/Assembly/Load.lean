import InteropTables.Assembly.MethodLists
import InteropTables.Assembly.Nesting
import InteropTables.Event
import InteropTables.Metadata.File
import InteropTables.Text.Path

/-!
# Loading a module

The tables and heaps of a module are turned into its types and methods, step by step: the identity,
the names of all types, the methods, who lists them, their native imports, and last their
attributes. A broken attribute never stops the loading; it is passed over or kept as unresolved.

* `readIdentity`, `readReferences`, `readSpecifications`, `readTypes`, `readMethods`: the parts;
* `Assembly.assignMethods`: types and methods know each other;
* `Assembly.bindImports`: methods know their native functions, the last row for a method deciding;
* `Assembly.resolve`: the type behind the constructor of an attribute;
* `Assembly.attachAttributes`: methods know their attributes;
* `Assembly.load`: the module of a file, and the report of its loading.
-/

namespace InteropTables

/-- The rows of a table; none if the module has no such table. -/
def TableStream.allRows (s : TableStream) (ρ : Type) [TableRow ρ] : Except Fault (List ρ) :=
  match s.table ρ with
  | some table => table.allRows
  | none => .ok []

/-! ## 1. Identity -/

/-- The name of the assembly, or else that of the module without its extension. -/
def readIdentity (tables : TableStream) (strings : StringHeap) : Except Fault String :=
  match tables.table AssemblyRow with
  | some table => do strings.get (← table.get 1).name
  | none =>
    match tables.table ModuleRow with
    | some table => do
      let name ← strings.get (← table.get 1).name
      return (Path.stem? name).getD name
    | none => .error (.malformed .noModuleTable)

/-! ## 2. Types and methods -/

/-- The names of all type references. -/
def readReferences (tables : TableStream) (strings : StringHeap) : Except Fault (Array TypeName) :=
  do
  let rows ← tables.allRows TypeRefRow
  let rowArray := rows.toArray
  let names ← rows.mapM (referenceName rowArray strings namingLimit)
  return names.toArray

/-- The blobs of all type specifications. -/
def readSpecifications (tables : TableStream) (blobs : BlobHeap) :
    Except Fault (Array ByteArray) := do
  let rows := (tables.table TypeSpecRow).elim [] Table.rows
  let found ← rows.mapM fun row => do blobs.get (← row).signature
  return found.toArray

/-- All types, without their methods. -/
def readTypes (tables : TableStream) (strings : StringHeap) : Except Fault (Array TypeInfo) := do
  let some table := tables.table TypeDefRow | return #[]
  let nested ← tables.allRows NestedClassRow
  let rows ← table.allRows
  let rowArray := rows.toArray
  let enclosing := enclosingTypes rows.length nested
  let types ← rows.mapM fun row => do
    return {
      token := TableRow.token TypeDefRow row.number
      name := ← definitionName rowArray enclosing strings namingLimit row
      flags := row.flags : TypeInfo }
  return types.toArray

/-- The method of a row, without what other tables say about it. -/
def readMethod (strings : StringHeap) (blobs : BlobHeap) (row : MethodDefRow) :
    Except Fault Method := do
  let name ← strings.get row.name
  let signature ← blobs.get row.signature
  return {
    token := TableRow.token MethodDefRow row.number
    name
    flags := .ofColumn row.flags
    implFlags := row.implFlags
    signature }

/-- All methods, without what other tables say about them. -/
def readMethods (tables : TableStream) (strings : StringHeap) (blobs : BlobHeap) :
    Except Fault (Array Method) := do
  let rows := (tables.table MethodDefRow).elim [] Table.rows
  let methods ← rows.mapM fun row => do readMethod strings blobs (← row)
  return methods.toArray

namespace Assembly

/-! ## 3. Who lists which method -/

/-- The list that the types of a module cut their methods from. -/
def methodList (tables : TableStream) : MethodList :=
  match tables.table MethodPtrRow with
  | some table => .indirect table
  | none => .direct (tables.rows .methodDef)

/-- The module with the method lists of its types. -/
def assignMethods (a : Assembly) (tables : TableStream) : Except Fault Assembly := do
  let rows ← tables.allRows TypeDefRow
  let lists ← methodLists (methodList tables) a.methods.size (rows.map (·.methodList))
  let declaring := declaringTypes a.methods.size lists
  return { a with
    types := a.types.zipWith (fun t methods => { t with methods }) lists.toArray
    methods := a.methods.zipWith (fun m declaring => { m with declaring }) declaring }

/-! ## 4. Native imports -/

/-- The native function that a row names, for a method that exists. -/
def readImport (tables : TableStream) (strings : StringHeap) (row : ImplMapRow) :
    Except Fault NativeImport :=
  let native := (tables.table ModuleRefRow).bind fun table => (table.get row.importScope).toOption
  match native with
  | none => .error (.malformed (.importScope row.number row.importScope))
  | some native => do
    let module ← strings.get native.name
    let entryPoint ← strings.get row.importName
    return { module, entryPoint, flags := row.flags }

/-- The methods with the import of one more row. Rows for other members than methods do not
count. -/
def bindImport (tables : TableStream) (strings : StringHeap) (methods : Array Method)
    (row : ImplMapRow) : Except Fault (Array Method) :=
  if row.member.table = .methodDef then
    if 1 ≤ row.member.row ∧ row.member.row ≤ methods.size then do
      let found ← readImport tables strings row
      return methods.modify (row.member.row - 1) fun m => { m with imported := some found }
    else .error (.malformed (.forwardedMethod row.number row.member.token))
  else .ok methods

/-- The module with the native imports of its methods. -/
def bindImports (a : Assembly) (tables : TableStream) (strings : StringHeap) :
    Except Fault Assembly := do
  let rows := (tables.table ImplMapRow).elim [] Table.rows
  let methods ← rows.foldlM (fun methods row => do bindImport tables strings methods (← row))
    a.methods
  return { a with methods }

/-! ## 5. Attributes -/

/-- The type that declares a constructor, or why it is not known. -/
def resolve (a : Assembly) (members : Option (Table MemberRefRow)) (strings : StringHeap)
    (made : CodedIndex) : Attribute :=
  match made.table with
  | .methodDef =>
    match (rowOf? a.methods made.row).bind a.declaringType? with
    | some t => .resolved t.name.space t.name.name
    | none => .unresolved ("constructor " ++ made.token.display ++ " has no declaring type")
  | .memberRef =>
    match members.bind fun table => (table.get made.row).toOption with
    | none => .unresolved ("constructor " ++ made.token.display ++ " does not exist")
    | some member =>
      if member.parent.table ∈ [.typeDef, .typeRef, .typeSpec] then
        match a.describeRow member.parent.token false with
        | .ok t => .resolved t.space t.name
        | .error cause => .unresolved cause.report
      else
        let name := (strings.get member.name).toOption.getD ""
        .unresolved ("constructor " ++ name ++ " is declared on " ++ member.parent.token.display ++
          ", which is not a type")
  | _ => .unresolved ("constructor token " ++ made.token.display ++ " is not a method")

/-- What an attribute row means for the methods of the module. -/
inductive AttributeUse where
  /-- The row cannot be read. -/
  | unreadable (cause : Fault)
  /-- The row is about something else than a method. -/
  | elsewhere
  /-- The row is about a method that does not exist. -/
  | stray (row method : Token)
  /-- The row gives an attribute to the method with an index. -/
  | applied (index : Nat) (value : Attribute)
deriving DecidableEq, Repr

/-- The meaning of an attribute row. -/
def attributeUse (a : Assembly) (members : Option (Table MemberRefRow)) (strings : StringHeap)
    (row : Except Fault CustomAttributeRow) : AttributeUse :=
  match row with
  | .error cause => .unreadable cause
  | .ok row =>
    if row.parent.table = .methodDef then
      if 1 ≤ row.parent.row ∧ row.parent.row ≤ a.methods.size then
        .applied (row.parent.row - 1) (a.resolve members strings row.constructor)
      else .stray (TableRow.token CustomAttributeRow row.number) row.parent.token
    else .elsewhere

/-- What is reported of an attribute row. -/
def AttributeUse.event? : AttributeUse → Option Event
  | unreadable cause => some (.unreadableAttribute cause)
  | stray row method => some (.strayAttribute row method)
  | _ => none

/-- The methods with the attribute of one more row. -/
def AttributeUse.apply (methods : Array Method) : AttributeUse → Array Method
  | applied index value =>
    methods.modify index fun m => { m with attributes := m.attributes.push value }
  | _ => methods

/-- The meanings of all attribute rows, in order. -/
def attributeUses (a : Assembly) (tables : TableStream) (strings : StringHeap) :
    List AttributeUse :=
  let members := tables.table MemberRefRow
  ((tables.table CustomAttributeRow).elim [] Table.rows).map (a.attributeUse members strings)

/-- The module with the attributes of its methods. -/
def attachAttributes (a : Assembly) (uses : List AttributeUse) : Assembly :=
  { a with methods := uses.foldl AttributeUse.apply a.methods }

/-! ## 6. The whole module -/

/-- The module up to its attributes. -/
def loadStructure (tables : TableStream) (strings : StringHeap) (blobs : BlobHeap) :
    Except Fault Assembly := do
  let identity ← readIdentity tables strings
  let references ← readReferences tables strings
  let specifications ← readSpecifications tables blobs
  let types ← readTypes tables strings
  let methods ← readMethods tables strings blobs
  let a : Assembly := { identity, types, methods, references, specifications }
  (← a.assignMethods tables).bindImports tables strings

/-- The module that the given streams describe, with the report of its loading. A module without
blobs has the empty blob only. -/
def ofStreams (streams : MetadataStreams) : Except Fault (Assembly × List Event) := do
  let some tables := streams.tables | throw (.malformed .noTableStream)
  let some strings := streams.strings | throw (.malformed .noStringHeap)
  let a ← loadStructure tables strings (streams.blobs.getD .nothing)
  let uses := a.attributeUses tables strings
  let loaded := Event.loaded a.identity a.types.size a.methods.size
  return (a.attachAttributes uses, uses.filterMap (·.event?) ++ [loaded])

/-- The module of a file, with the report of its loading. -/
def load (data : ByteArray) : Except Fault (Assembly × List Event) := do
  ofStreams (← MetadataFile.ofBytes data).streams

end Assembly

end InteropTables
