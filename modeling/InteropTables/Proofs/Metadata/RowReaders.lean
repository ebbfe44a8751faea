import InteropTables.Metadata.Table
import InteropTables.Proofs.Steps

/-!
# Readers of rows, cell by cell

The layout of a row can be written down in two ways. A list of columns says how large the rows of a
table are, and so where each of them stands; this is needed of every table. A reader takes the cells
of a row one behind the other and asks itself how wide each of them is; this is needed only of the
tables whose rows are looked at. Here is a reader for each of these tables, and the two layouts
prove to be one.

* `PlaceReader`: a step that reads at a place and moves the place on;
* `RowKind`, `RowKind.reader`: the tables whose rows are looked at, each with its reader;
* `PlaceReader.Takes`, `PlaceReader.TakesColumns`: what a step and a whole reader take;
* `RowKind.takesColumns`: **every reader takes the columns of its table**, each at its own width.
-/

namespace InteropTables

/-! ## 1. Reading from a place on -/

/-- A step that reads at a place of a block and moves the place on. -/
abbrev PlaceReader (α : Type) : Type :=
  StateT Nat (Except Fault) α

namespace PlaceReader

/-- The number in the next `width` bytes. -/
def word (data : ByteArray) (width : Nat) : PlaceReader Nat := fun offset => do
  return (← Bytes.word data width offset, offset + width)

/-- A place in a heap or a row number, in four bytes or in two. -/
def index (data : ByteArray) (wide : Bool) : PlaceReader Nat :=
  if wide then word data 4 else word data 2

/-- A reference to a row of one of several tables. -/
def reference (sizes : TableSizes) (data : ByteArray) (kind : CodedKind) :
    PlaceReader CodedIndex := do
  let value ← index data (sizes.codedWidth kind == 4)
  liftM (kind.decode value)

end PlaceReader

/-! ## 2. One reader for each table -/

/-- The tables whose rows are looked at. -/
inductive RowKind where
  | module
  | typeRef
  | typeDef
  | methodPtr
  | methodDef
  | memberRef
  | customAttribute
  | moduleRef
  | typeSpec
  | implMap
  | assembly
  | nestedClass
deriving DecidableEq, Repr

namespace RowKind

open PlaceReader

/-- The rows of a table. -/
@[reducible] def Row : RowKind → Type
  | module => ModuleRow
  | typeRef => TypeRefRow
  | typeDef => TypeDefRow
  | methodPtr => MethodPtrRow
  | methodDef => MethodDefRow
  | memberRef => MemberRefRow
  | customAttribute => CustomAttributeRow
  | moduleRef => ModuleRefRow
  | typeSpec => TypeSpecRow
  | implMap => ImplMapRow
  | assembly => AssemblyRow
  | nestedClass => NestedClassRow

instance tableRow : (k : RowKind) → TableRow k.Row
  | module => inferInstanceAs (TableRow ModuleRow)
  | typeRef => inferInstanceAs (TableRow TypeRefRow)
  | typeDef => inferInstanceAs (TableRow TypeDefRow)
  | methodPtr => inferInstanceAs (TableRow MethodPtrRow)
  | methodDef => inferInstanceAs (TableRow MethodDefRow)
  | memberRef => inferInstanceAs (TableRow MemberRefRow)
  | customAttribute => inferInstanceAs (TableRow CustomAttributeRow)
  | moduleRef => inferInstanceAs (TableRow ModuleRefRow)
  | typeSpec => inferInstanceAs (TableRow TypeSpecRow)
  | implMap => inferInstanceAs (TableRow ImplMapRow)
  | assembly => inferInstanceAs (TableRow AssemblyRow)
  | nestedClass => inferInstanceAs (TableRow NestedClassRow)

/-- The table itself. -/
def table (k : RowKind) : TableId :=
  TableRow.table k.Row

section Readers

variable (sizes : TableSizes) (data : ByteArray) (number : Nat)

def readModule : PlaceReader ModuleRow := do
  let generation ← word data 2
  let name ← index data sizes.wideText
  let versionId ← index data sizes.wideGuids
  let editId ← index data sizes.wideGuids
  let editBaseId ← index data sizes.wideGuids
  return { number, generation, name, versionId, editId, editBaseId }

def readTypeRef : PlaceReader TypeRefRow := do
  let scope ← reference sizes data .resolutionScope
  let name ← index data sizes.wideText
  let space ← index data sizes.wideText
  return { number, scope, name, space }

def readTypeDef : PlaceReader TypeDefRow := do
  let flags ← word data 4
  let name ← index data sizes.wideText
  let space ← index data sizes.wideText
  let base ← reference sizes data .typeDefOrRef
  let fieldList ← index data (sizes.isWide .field)
  let methodList ← index data (sizes.isWide .methodDef)
  return { number, flags, name, space, base, fieldList, methodList }

def readMethodPtr : PlaceReader MethodPtrRow := do
  let method ← index data (sizes.isWide .methodDef)
  return { number, method }

def readMethodDef : PlaceReader MethodDefRow := do
  let address ← word data 4
  let implFlags ← word data 2
  let flags ← word data 2
  let name ← index data sizes.wideText
  let signature ← index data sizes.wideBlobs
  let paramList ← index data (sizes.isWide .param)
  return { number, address, implFlags, flags, name, signature, paramList }

def readMemberRef : PlaceReader MemberRefRow := do
  let parent ← reference sizes data .memberRefParent
  let name ← index data sizes.wideText
  let signature ← index data sizes.wideBlobs
  return { number, parent, name, signature }

def readCustomAttribute : PlaceReader CustomAttributeRow := do
  let parent ← reference sizes data .hasCustomAttribute
  let made ← reference sizes data .customAttributeType
  let value ← index data sizes.wideBlobs
  return { number, parent, constructor := made, value }

def readModuleRef : PlaceReader ModuleRefRow := do
  let name ← index data sizes.wideText
  return { number, name }

def readTypeSpec : PlaceReader TypeSpecRow := do
  let signature ← index data sizes.wideBlobs
  return { number, signature }

def readImplMap : PlaceReader ImplMapRow := do
  let flags ← word data 2
  let member ← reference sizes data .memberForwarded
  let importName ← index data sizes.wideText
  let importScope ← index data (sizes.isWide .moduleRef)
  return { number, flags, member, importName, importScope }

def readAssembly : PlaceReader AssemblyRow := do
  let hashAlgorithm ← word data 4
  let majorVersion ← word data 2
  let minorVersion ← word data 2
  let buildNumber ← word data 2
  let revisionNumber ← word data 2
  let flags ← word data 4
  let publicKey ← index data sizes.wideBlobs
  let name ← index data sizes.wideText
  let culture ← index data sizes.wideText
  return {
    number, hashAlgorithm, majorVersion, minorVersion, buildNumber, revisionNumber, flags,
    publicKey, name, culture }

def readNestedClass : PlaceReader NestedClassRow := do
  let nested ← index data (sizes.isWide .typeDef)
  let enclosing ← index data (sizes.isWide .typeDef)
  return { number, nested, enclosing }

/-- The reader for the row with a given number. -/
def reader : (k : RowKind) → PlaceReader k.Row
  | module => readModule sizes data number
  | typeRef => readTypeRef sizes data number
  | typeDef => readTypeDef sizes data number
  | methodPtr => readMethodPtr sizes data number
  | methodDef => readMethodDef sizes data number
  | memberRef => readMemberRef sizes data number
  | customAttribute => readCustomAttribute sizes data number
  | moduleRef => readModuleRef sizes data number
  | typeSpec => readTypeSpec sizes data number
  | implMap => readImplMap sizes data number
  | assembly => readAssembly sizes data number
  | nestedClass => readNestedClass sizes data number

end Readers

end RowKind

/-! ## 3. Readers and columns -/

namespace PlaceReader

variable {α : Type} {sizes : TableSizes} {data : ByteArray}

/-- The step reads the number in the next `width` bytes, moves on behind them, and gives what the
number stands for. -/
def Takes (data : ByteArray) (width : Nat) (content : Nat → Except Fault α) (r : PlaceReader α) :
    Prop :=
  ∀ offset, r offset
    = (Bytes.word data width offset >>= content).map fun cell => (cell, offset + width)

/-- The reader reads the cells of the columns, moves on by all their widths, and makes its value
from the cells. -/
def TakesColumns (sizes : TableSizes) (data : ByteArray) (columns : List Column)
    (make : Cells columns → α) (r : PlaceReader α) : Prop :=
  ∀ offset, r offset
    = (Cells.read sizes data columns offset).map fun cells =>
        (make cells, offset + sizes.widthSum columns)

theorem takes_word (width : Nat) : Takes data width .ok (word data width) := by
  intro offset
  show _ = (Bytes.word data width offset >>= pure).map _
  rw [bind_pure]
  rfl

theorem takes_index (wide : Bool) : Takes data (TableSizes.widthOf wide) .ok (index data wide) := by
  cases wide
  · exact takes_word 2
  · exact takes_word 4

/-- A coded column is as wide as its width says, which is four or two. -/
theorem takes_reference (kind : CodedKind) :
    Takes data (sizes.codedWidth kind) kind.decode (reference sizes data kind) := by
  have hwidth : TableSizes.widthOf (sizes.codedWidth kind == 4) = sizes.codedWidth kind := by
    have hcases : sizes.codedWidth kind = 2 ∨ sizes.codedWidth kind = 4 :=
      TableSizes.widthOf_cases _
    rcases hcases with h | h <;> rw [h] <;> rfl
  have hindex := @takes_index data (sizes.codedWidth kind == 4)
  rw [hwidth] at hindex
  intro offset
  show (index data (sizes.codedWidth kind == 4) offset >>= fun r =>
    (liftM (kind.decode r.1) : PlaceReader CodedIndex) r.2) = _
  rw [hindex offset]
  cases Bytes.word data (sizes.codedWidth kind) offset with
  | error e => rfl
  | ok n =>
    show (liftM (kind.decode n) : PlaceReader CodedIndex) (offset + sizes.codedWidth kind)
      = (kind.decode n).map _
    cases kind.decode n <;> rfl

theorem TakesColumns.nil {make : Cells [] → α} :
    TakesColumns sizes data [] make (pure (make ())) :=
  fun _ => rfl

/-- **A cell and the cells behind it make a row.** -/
theorem TakesColumns.cons {c : Column} {cs : List Column} {make : Cells (c :: cs) → α}
    {first : PlaceReader c.Cell} {more : c.Cell → PlaceReader α}
    (hfirst : Takes data (sizes.width c) c.cellOf first)
    (hmore : ∀ cell, TakesColumns sizes data cs (fun cells => make (cell, cells)) (more cell)) :
    TakesColumns sizes data (c :: cs) make (first >>= more) := by
  intro offset
  show (first offset >>= fun r => more r.1 r.2) = _
  rw [hfirst offset, Cells.read]
  cases Bytes.word data (sizes.width c) offset with
  | error e => rfl
  | ok n =>
    rw [bind_ok, bind_ok]
    cases c.cellOf n with
    | error e => rfl
    | ok cell =>
      show more cell (offset + sizes.width c) = _
      rw [hmore cell, bind_ok, Nat.add_assoc]
      cases Cells.read sizes data cs (offset + sizes.width c) <;> rfl

end PlaceReader

namespace RowKind

open PlaceReader

section Readers

variable (sizes : TableSizes) (data : ByteArray) (number : Nat)

/-- **Every reader takes the columns of its table**, one cell for each, and makes the row from
them. -/
theorem takesColumns (k : RowKind) :
    TakesColumns sizes data k.table.columns (TableRow.ofCells number)
      (k.reader sizes data number) := by
  cases k with
  | module =>
    refine .cons (takes_word 2) fun _ => .cons (takes_index _) fun _ => ?_
    refine .cons (takes_index _) fun _ => .cons (takes_index _) fun _ => ?_
    exact .cons (takes_index _) fun _ => .nil
  | typeRef =>
    refine .cons (takes_reference _) fun _ => ?_
    exact .cons (takes_index _) fun _ => .cons (takes_index _) fun _ => .nil
  | typeDef =>
    refine .cons (takes_word 4) fun _ => .cons (takes_index _) fun _ => ?_
    refine .cons (takes_index _) fun _ => .cons (takes_reference _) fun _ => ?_
    exact .cons (takes_index _) fun _ => .cons (takes_index _) fun _ => .nil
  | methodPtr => exact .cons (takes_index _) fun _ => .nil
  | methodDef =>
    refine .cons (takes_word 4) fun _ => .cons (takes_word 2) fun _ => ?_
    refine .cons (takes_word 2) fun _ => .cons (takes_index _) fun _ => ?_
    exact .cons (takes_index _) fun _ => .cons (takes_index _) fun _ => .nil
  | memberRef =>
    refine .cons (takes_reference _) fun _ => ?_
    exact .cons (takes_index _) fun _ => .cons (takes_index _) fun _ => .nil
  | customAttribute =>
    refine .cons (takes_reference _) fun _ => .cons (takes_reference _) fun _ => ?_
    exact .cons (takes_index _) fun _ => .nil
  | moduleRef => exact .cons (takes_index _) fun _ => .nil
  | typeSpec => exact .cons (takes_index _) fun _ => .nil
  | implMap =>
    refine .cons (takes_word 2) fun _ => .cons (takes_reference _) fun _ => ?_
    exact .cons (takes_index _) fun _ => .cons (takes_index _) fun _ => .nil
  | assembly =>
    refine .cons (takes_word 4) fun _ => .cons (takes_word 2) fun _ => ?_
    refine .cons (takes_word 2) fun _ => .cons (takes_word 2) fun _ => ?_
    refine .cons (takes_word 2) fun _ => .cons (takes_word 4) fun _ => ?_
    refine .cons (takes_index _) fun _ => .cons (takes_index _) fun _ => ?_
    exact .cons (takes_index _) fun _ => .nil
  | nestedClass => exact .cons (takes_index _) fun _ => .cons (takes_index _) fun _ => .nil

end Readers

end RowKind

end InteropTables
