import InteropTables.Metadata.TableId

/-!
# The columns of each table

What stands in a row is fixed by the kind of its table. Most columns are plain numbers; some refer
to heaps or to rows, and a coded column refers to a row of one of several tables, told apart by a
tag in its low bits.

* `CodedKind`: the sets of tables that coded columns choose from, in tag order
  (`CodedKind.targets`);
* `CodedKind.tagBits`: how many low bits hold the tag;
* `Column`, `TableId.columns`: the columns of each table in physical order.
-/

namespace InteropTables

/-! ## 1. Coded columns -/

/-- A way of referring to a row of one of several tables. -/
inductive CodedKind where
  | typeDefOrRef
  | hasConstant
  | hasCustomAttribute
  | hasFieldMarshal
  | hasDeclSecurity
  | memberRefParent
  | hasSemantics
  | methodDefOrRef
  | memberForwarded
  | implementation
  | customAttributeType
  | resolutionScope
  | typeOrMethodDef
deriving DecidableEq, Repr, Inhabited

namespace CodedKind

/-- All kinds of coded column. -/
def all : List CodedKind :=
  [typeDefOrRef, hasConstant, hasCustomAttribute, hasFieldMarshal, hasDeclSecurity,
  memberRefParent, hasSemantics, methodDefOrRef, memberForwarded, implementation,
  customAttributeType, resolutionScope, typeOrMethodDef]

/-- The common name of a kind of coded column. -/
def name : CodedKind → String
  | typeDefOrRef => "TypeDefOrRef"
  | hasConstant => "HasConstant"
  | hasCustomAttribute => "HasCustomAttribute"
  | hasFieldMarshal => "HasFieldMarshal"
  | hasDeclSecurity => "HasDeclSecurity"
  | memberRefParent => "MemberRefParent"
  | hasSemantics => "HasSemantics"
  | methodDefOrRef => "MethodDefOrRef"
  | memberForwarded => "MemberForwarded"
  | implementation => "Implementation"
  | customAttributeType => "CustomAttributeType"
  | resolutionScope => "ResolutionScope"
  | typeOrMethodDef => "TypeOrMethodDef"

/-- The kind of coded column with a given common name. -/
def ofName? (name : String) : Option CodedKind :=
  all.find? fun k => k.name == name

/-- The tables that the tags `0`, `1`, `2`, … select. Of the tags of an attribute constructor only
two are in use; the reserved ones below and above them read as their neighbours. -/
def targets : CodedKind → List TableId
  | typeDefOrRef => [.typeDef, .typeRef, .typeSpec]
  | hasConstant => [.field, .param, .property]
  | hasCustomAttribute =>
    [.methodDef, .field, .typeRef, .typeDef, .param, .interfaceImpl, .memberRef, .module,
    .declSecurity, .property, .event, .standAloneSig, .moduleRef, .typeSpec, .assembly,
    .assemblyRef, .file, .exportedType, .manifestResource, .genericParam, .genericParamConstraint,
    .methodSpec]
  | hasFieldMarshal => [.field, .param]
  | hasDeclSecurity => [.typeDef, .methodDef, .assembly]
  | memberRefParent => [.typeDef, .typeRef, .moduleRef, .methodDef, .typeSpec]
  | hasSemantics => [.event, .property]
  | methodDefOrRef => [.methodDef, .memberRef]
  | memberForwarded => [.field, .methodDef]
  | implementation => [.file, .assemblyRef, .exportedType]
  | customAttributeType => [.methodDef, .methodDef, .methodDef, .memberRef, .memberRef]
  | resolutionScope => [.module, .moduleRef, .assemblyRef, .typeRef]
  | typeOrMethodDef => [.typeDef, .methodDef]

/-- How many low bits hold the tag: as many as the highest tag needs. -/
def tagBits (k : CodedKind) : Nat :=
  (k.targets.length - 1).log2 + 1

/-- How many tags the bits tell apart. -/
def tagSpan (k : CodedKind) : Nat :=
  1 <<< k.tagBits

/-- Every tag of a kind fits its bits. -/
theorem length_targets_le (k : CodedKind) : k.targets.length ≤ k.tagSpan := by
  cases k <;> decide

theorem tagSpan_pos (k : CodedKind) : 0 < k.tagSpan := by
  cases k <;> decide

theorem tagBits_le (k : CodedKind) : k.tagBits ≤ 5 := by
  cases k <;> decide

end CodedKind

/-! ## 2. Columns -/

/-- What one column of a row holds. -/
inductive Column where
  /-- A number of two bytes. -/
  | word16
  /-- A number of four bytes. -/
  | word32
  /-- A place in the string heap. -/
  | text
  /-- A place in the heap of unique identifiers. -/
  | guid
  /-- A place in the blob heap. -/
  | blob
  /-- A row of a given table. -/
  | index (table : TableId)
  /-- A row of one of several tables. -/
  | coded (kind : CodedKind)
deriving DecidableEq, Repr

/-- The columns of a table in physical order. The type byte of a constant and the padding byte
behind it count as one column. -/
def TableId.columns : TableId → List Column
  | module => [.word16, .text, .guid, .guid, .guid]
  | typeRef => [.coded .resolutionScope, .text, .text]
  | typeDef => [.word32, .text, .text, .coded .typeDefOrRef, .index .field, .index .methodDef]
  | fieldPtr => [.index .field]
  | field => [.word16, .text, .blob]
  | methodPtr => [.index .methodDef]
  | methodDef => [.word32, .word16, .word16, .text, .blob, .index .param]
  | paramPtr => [.index .param]
  | param => [.word16, .word16, .text]
  | interfaceImpl => [.index .typeDef, .coded .typeDefOrRef]
  | memberRef => [.coded .memberRefParent, .text, .blob]
  | constant => [.word16, .coded .hasConstant, .blob]
  | customAttribute => [.coded .hasCustomAttribute, .coded .customAttributeType, .blob]
  | fieldMarshal => [.coded .hasFieldMarshal, .blob]
  | declSecurity => [.word16, .coded .hasDeclSecurity, .blob]
  | classLayout => [.word16, .word32, .index .typeDef]
  | fieldLayout => [.word32, .index .field]
  | standAloneSig => [.blob]
  | eventMap => [.index .typeDef, .index .event]
  | eventPtr => [.index .event]
  | event => [.word16, .text, .coded .typeDefOrRef]
  | propertyMap => [.index .typeDef, .index .property]
  | propertyPtr => [.index .property]
  | property => [.word16, .text, .blob]
  | methodSemantics => [.word16, .index .methodDef, .coded .hasSemantics]
  | methodImpl => [.index .typeDef, .coded .methodDefOrRef, .coded .methodDefOrRef]
  | moduleRef => [.text]
  | typeSpec => [.blob]
  | implMap => [.word16, .coded .memberForwarded, .text, .index .moduleRef]
  | fieldRva => [.word32, .index .field]
  | encLog => [.word32, .word32]
  | encMap => [.word32]
  | assembly => [.word32, .word16, .word16, .word16, .word16, .word32, .blob, .text, .text]
  | assemblyProcessor => [.word32]
  | assemblyOs => [.word32, .word32, .word32]
  | assemblyRef => [.word16, .word16, .word16, .word16, .word32, .blob, .text, .text, .blob]
  | assemblyRefProcessor => [.word32, .index .assemblyRef]
  | assemblyRefOs => [.word32, .word32, .word32, .index .assemblyRef]
  | file => [.word32, .text, .blob]
  | exportedType => [.word32, .word32, .text, .text, .coded .implementation]
  | manifestResource => [.word32, .word32, .text, .coded .implementation]
  | nestedClass => [.index .typeDef, .index .typeDef]
  | genericParam => [.word16, .word16, .coded .typeOrMethodDef, .text]
  | methodSpec => [.coded .methodDefOrRef, .blob]
  | genericParamConstraint => [.index .genericParam, .coded .typeDefOrRef]

end InteropTables
