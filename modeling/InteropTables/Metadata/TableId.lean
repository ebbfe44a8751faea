/-!
# The tables of a module

Metadata describes a module in forty-five kinds of table, numbered in a fixed order.

* `TableId`: the kinds, in the order of their numbers;
* `TableId.all`, `TableId.number`, `TableId.name`: the list, the number and the common name;
* `TableId.ofNumber?_number`: a kind is found by its number;
* `TableId.pairwise_number_all`: the list follows the numbers.
-/

namespace InteropTables

/-- A kind of metadata table. -/
inductive TableId where
  | module
  | typeRef
  | typeDef
  | fieldPtr
  | field
  | methodPtr
  | methodDef
  | paramPtr
  | param
  | interfaceImpl
  | memberRef
  | constant
  | customAttribute
  | fieldMarshal
  | declSecurity
  | classLayout
  | fieldLayout
  | standAloneSig
  | eventMap
  | eventPtr
  | event
  | propertyMap
  | propertyPtr
  | property
  | methodSemantics
  | methodImpl
  | moduleRef
  | typeSpec
  | implMap
  | fieldRva
  | encLog
  | encMap
  | assembly
  | assemblyProcessor
  | assemblyOs
  | assemblyRef
  | assemblyRefProcessor
  | assemblyRefOs
  | file
  | exportedType
  | manifestResource
  | nestedClass
  | genericParam
  | methodSpec
  | genericParamConstraint
deriving DecidableEq, Repr, Inhabited, Hashable

namespace TableId

/-- All kinds of table, by rising number. -/
def all : List TableId :=
  [module, typeRef, typeDef, fieldPtr, field, methodPtr, methodDef, paramPtr, param,
  interfaceImpl, memberRef, constant, customAttribute, fieldMarshal, declSecurity, classLayout,
  fieldLayout, standAloneSig, eventMap, eventPtr, event, propertyMap, propertyPtr, property,
  methodSemantics, methodImpl, moduleRef, typeSpec, implMap, fieldRva, encLog, encMap, assembly,
  assemblyProcessor, assemblyOs, assemblyRef, assemblyRefProcessor, assemblyRefOs, file,
  exportedType, manifestResource, nestedClass, genericParam, methodSpec, genericParamConstraint]

/-- The number of a kind of table, as tokens and the vector of valid tables use it. -/
def number : TableId → Nat
  | module => 0x00
  | typeRef => 0x01
  | typeDef => 0x02
  | fieldPtr => 0x03
  | field => 0x04
  | methodPtr => 0x05
  | methodDef => 0x06
  | paramPtr => 0x07
  | param => 0x08
  | interfaceImpl => 0x09
  | memberRef => 0x0A
  | constant => 0x0B
  | customAttribute => 0x0C
  | fieldMarshal => 0x0D
  | declSecurity => 0x0E
  | classLayout => 0x0F
  | fieldLayout => 0x10
  | standAloneSig => 0x11
  | eventMap => 0x12
  | eventPtr => 0x13
  | event => 0x14
  | propertyMap => 0x15
  | propertyPtr => 0x16
  | property => 0x17
  | methodSemantics => 0x18
  | methodImpl => 0x19
  | moduleRef => 0x1A
  | typeSpec => 0x1B
  | implMap => 0x1C
  | fieldRva => 0x1D
  | encLog => 0x1E
  | encMap => 0x1F
  | assembly => 0x20
  | assemblyProcessor => 0x21
  | assemblyOs => 0x22
  | assemblyRef => 0x23
  | assemblyRefProcessor => 0x24
  | assemblyRefOs => 0x25
  | file => 0x26
  | exportedType => 0x27
  | manifestResource => 0x28
  | nestedClass => 0x29
  | genericParam => 0x2A
  | methodSpec => 0x2B
  | genericParamConstraint => 0x2C

/-- The common name of a kind of table. -/
def name : TableId → String
  | module => "Module"
  | typeRef => "TypeRef"
  | typeDef => "TypeDef"
  | fieldPtr => "FieldPtr"
  | field => "Field"
  | methodPtr => "MethodPtr"
  | methodDef => "MethodDef"
  | paramPtr => "ParamPtr"
  | param => "Param"
  | interfaceImpl => "InterfaceImpl"
  | memberRef => "MemberRef"
  | constant => "Constant"
  | customAttribute => "CustomAttribute"
  | fieldMarshal => "FieldMarshal"
  | declSecurity => "DeclSecurity"
  | classLayout => "ClassLayout"
  | fieldLayout => "FieldLayout"
  | standAloneSig => "StandAloneSig"
  | eventMap => "EventMap"
  | eventPtr => "EventPtr"
  | event => "Event"
  | propertyMap => "PropertyMap"
  | propertyPtr => "PropertyPtr"
  | property => "Property"
  | methodSemantics => "MethodSemantics"
  | methodImpl => "MethodImpl"
  | moduleRef => "ModuleRef"
  | typeSpec => "TypeSpec"
  | implMap => "ImplMap"
  | fieldRva => "FieldRVA"
  | encLog => "EncLog"
  | encMap => "EncMap"
  | assembly => "Assembly"
  | assemblyProcessor => "AssemblyProcessor"
  | assemblyOs => "AssemblyOS"
  | assemblyRef => "AssemblyRef"
  | assemblyRefProcessor => "AssemblyRefProcessor"
  | assemblyRefOs => "AssemblyRefOS"
  | file => "File"
  | exportedType => "ExportedType"
  | manifestResource => "ManifestResource"
  | nestedClass => "NestedClass"
  | genericParam => "GenericParam"
  | methodSpec => "MethodSpec"
  | genericParamConstraint => "GenericParamConstraint"

/-- The kind with a given number. -/
def ofNumber? (n : Nat) : Option TableId :=
  all[n]?

/-- The kind with a given common name. -/
def ofName? (name : String) : Option TableId :=
  all.find? fun t => t.name == name

theorem mem_all (t : TableId) : t ∈ all := by
  cases t <;> decide

theorem ofNumber?_number (t : TableId) : ofNumber? t.number = some t := by
  cases t <;> rfl

theorem number_lt (t : TableId) : t.number < 45 := by
  cases t <;> decide

/-- The list of kinds follows their numbers. -/
theorem pairwise_number_all : all.Pairwise fun a b => a.number < b.number := by
  decide +kernel

/-- The bit of a kind of table in the vector of valid tables. -/
def bit (t : TableId) : Nat :=
  1 <<< t.number

end TableId

end InteropTables
