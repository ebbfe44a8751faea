import InteropTables.Proofs.Assembly.Laid
import InteropTables.Proofs.Assembly.MethodLists

/-!
# Methods read from the tables of an outline

The passes that fill in the methods, each of which finds what the outline says.

* `Laid.readMethods_eq`: the methods as far as their own rows tell;
* `Laid.assignMethods_eq`: **types list their methods, and methods know their types;**
* `Laid.bindImports_eq`: **methods get their native functions;**
* `Laid.attributeUses_eq`: **every attribute row is about a method, and its type is known.**
-/

namespace InteropTables

/-! ## 1. Methods and who lists them -/

/-- A method as far as its own row tells. -/
def MethodOutline.bare (o : MethodOutline) (index : Nat) : Method where
  token := TableRow.token MethodDefRow (index + 1)
  name := o.name
  flags := .ofColumn o.flags.toNat
  implFlags := o.implFlags.toNat
  signature := Bytes.ofList o.signature

/-- How many methods each of some types has. -/
def methodCounts (types : List TypeOutline) : List Nat :=
  types.map fun t => t.methods.length

theorem methodTotal_methodCounts (types : List TypeOutline) :
    methodTotal (methodCounts types) = (types.flatMap (·.methods)).length := by
  induction types with
  | nil => rfl
  | cons t types ih =>
    rw [List.flatMap_cons, List.length_append, ← ih]
    rfl

theorem startsFrom_methodCounts (types : List TypeOutline) (before : Nat) :
    startsFrom before (methodCounts types) = types.mapIdx fun i _ =>
      before + ((types.take i).flatMap (·.methods)).length + 1 := by
  induction types generalizing before with
  | nil => rfl
  | cons t types ih =>
    rw [List.mapIdx_cons]
    show (before + 1) :: startsFrom (before + t.methods.length) (methodCounts types) = _
    rw [ih]
    simp only [List.take_zero, List.flatMap_nil, List.length_nil, Nat.add_zero, List.take_succ_cons,
      List.flatMap_cons, List.length_append, Nat.add_assoc]

theorem runsFrom_methodCounts (types : List TypeOutline) (before : Nat) :
    runsFrom before (methodCounts types) = types.mapIdx fun i t =>
      List.range' (before + ((types.take i).flatMap (·.methods)).length) t.methods.length := by
  induction types generalizing before with
  | nil => rfl
  | cons t types ih =>
    rw [List.mapIdx_cons]
    show List.range' before _ :: runsFrom (before + t.methods.length) (methodCounts types) = _
    rw [ih]
    simp only [List.take_zero, List.flatMap_nil, List.length_nil, Nat.add_zero, List.take_succ_cons,
      List.flatMap_cons, List.length_append, Nat.add_assoc]

/-- The induction is on the types, which count from any index. -/
theorem owners_methodCounts (types : List TypeOutline) (index : Nat) :
    owners (index + 1) (methodCounts types)
      = ((types.zipIdx index).flatMap fun (t, i) => t.methods.map (i, ·)).map fun listed =>
          some (listed.1 + 1) := by
  induction types generalizing index with
  | nil => rfl
  | cons t types ih =>
    rw [List.zipIdx_cons, List.flatMap_cons, List.map_append, ← ih, List.map_map]
    show List.replicate _ _ ++ owners (index + 1 + 1) (methodCounts types) = _
    congr 1
    exact (List.map_const' ..).symm

theorem listed_methods (types : List TypeOutline) (index : Nat) :
    ((types.zipIdx index).flatMap fun (t, i) => t.methods.map (i, ·)).map (·.2)
      = types.flatMap (·.methods) := by
  induction types generalizing index with
  | nil => rfl
  | cons t types ih =>
    rw [List.zipIdx_cons, List.flatMap_cons, List.flatMap_cons, List.map_append, ih, List.map_map]
    congr 1
    exact List.map_id' _

namespace Laid

variable {m : Outline} {p : Placement} {tables : TableStream}

theorem text_of_method {o : MethodOutline} (ho : o ∈ m.methods) : o.name ∈ m.texts := by
  iterate 4 refine List.mem_cons_of_mem _ ?_
  exact List.mem_append_right _ (List.mem_flatMap.2 ⟨o, ho, List.mem_cons_self ..⟩)

/-- The methods are read as far as their own rows tell. -/
theorem readMethods_eq (h : Laid m p tables) :
    readMethods tables p.strings p.blobHeap
      = .ok (m.methods.mapIdx fun k o => o.bare k).toArray := by
  have hrow : ∀ k o, m.methods[k]? = some o →
      readMethod p.strings p.blobHeap (p.methodRow k o) = .ok (o.bare k) := by
    intro k o ho
    have hmem := List.mem_of_getElem? ho
    have hblob : o.signature ∈ m.blobs :=
      List.mem_cons_of_mem _ (List.mem_cons_of_mem _ (List.mem_map_of_mem hmem))
    have hgetName : p.strings.get (p.methodRow k o).name = .ok o.name :=
      h.get_text (text_of_method hmem)
    have hgetBlob : p.blobHeap.get (p.methodRow k o).signature = .ok (Bytes.ofList o.signature) :=
      BlobHeap.get_of_holdsBlob (h.sound.blob _ hblob)
    rw [readMethod, hgetName, bind_ok, hgetBlob]
    rfl
  rw [readMethods, h.holds.rows_table MethodDefRow, Placement.typed_methodDef, List.mapM_map,
    mapM_mapIdx_ok (h := fun k o => o.bare k) hrow]
  rfl

/-- The types list the methods that the outline gives them, and the methods know their types. -/
theorem assignMethods_eq (h : Laid m p tables) {a : Assembly}
    (htypes : a.types = (Outline.globalType ::
      m.types.mapIdx fun i t => { m.typeInfo i t with methods := [] }).toArray)
    (hmethods : a.methods = (m.methods.mapIdx fun k o => o.bare k).toArray) :
    a.assignMethods tables = .ok { a with
      types := (Outline.globalType :: m.typeInfos).toArray
      methods := (m.listed.mapIdx fun k listed =>
        { listed.2.bare k with declaring := some (listed.1 + 1) }).toArray } := by
  have htotal : methodTotal (0 :: methodCounts m.types) = m.methods.length :=
    (Nat.zero_add _).trans (methodTotal_methodCounts m.types)
  have hsize : a.methods.size = methodTotal (0 :: methodCounts m.types) := by
    rw [hmethods, htotal, List.size_toArray, List.length_mapIdx]
  have hlist : Assembly.methodList tables
      = .direct (methodTotal (0 :: methodCounts m.types)) := by
    rw [Assembly.methodList, h.holds.absent MethodPtrRow rfl, h.holds.rows_eq, htotal]
    exact congrArg MethodList.direct (List.length_map _)
  have hstarts : (p.globalRow :: m.types.mapIdx (p.typeRow m)).map (·.methodList)
      = startsFrom 0 (0 :: methodCounts m.types) := by
    show 1 :: (m.types.mapIdx (p.typeRow m)).map (·.methodList)
      = 1 :: startsFrom 0 (methodCounts m.types)
    rw [startsFrom_methodCounts, ← mapIdx_const, List.mapIdx_mapIdx]
    simp only [Nat.zero_add]
    rfl
  have hlisted : a.types.zipWith (fun t methods => { t with methods })
        (runsFrom 0 (0 :: methodCounts m.types)).toArray
      = (Outline.globalType :: m.typeInfos).toArray := by
    rw [htypes, List.zipWith_toArray]
    show (Outline.globalType :: List.zipWith _ _ (runsFrom 0 (methodCounts m.types))).toArray = _
    rw [runsFrom_methodCounts, zipWith_mapIdx]
    simp only [Nat.zero_add]
    rfl
  have howned : a.methods.zipWith (fun m declaring => { m with declaring })
        (owners 0 (0 :: methodCounts m.types)).toArray
      = (m.listed.mapIdx fun k listed =>
          { listed.2.bare k with declaring := some (listed.1 + 1) }).toArray := by
    have howners : owners 0 (0 :: methodCounts m.types)
        = m.listed.mapIdx fun _ listed => some (listed.1 + 1) := by
      rw [mapIdx_const]
      exact owners_methodCounts m.types 0
    have hbare : m.methods.mapIdx (fun k o => o.bare k)
        = m.listed.mapIdx fun k listed => listed.2.bare k := by
      rw [Outline.methods, ← listed_methods m.types 0, mapIdx_map]
      rfl
    rw [hmethods, howners, hbare, List.zipWith_toArray, zipWith_mapIdx]
  have hlists := methodLists_startsFrom (0 :: methodCounts m.types)
  have hdeclaring := declaringTypes_runsFrom (0 :: methodCounts m.types)
  rw [Assembly.assignMethods, h.holds.allRows_eq TypeDefRow, Placement.typed_typeDef, bind_ok,
    hstarts, hlist, hsize, hlists, bind_ok, hdeclaring]
  show Except.ok { a with types := a.types.zipWith _ _, methods := a.methods.zipWith _ _ } = _
  rw [hlisted, howned]

end Laid

/-! ## 2. Native functions and attributes -/

/-- A native function as it is loaded. -/
def ImportOutline.loaded (i : ImportOutline) : NativeImport :=
  ⟨i.module, i.entryPoint, i.flags.toNat⟩

/-- A method with a native function. -/
def ImportOutline.bind (i : ImportOutline) (x : Method) : Method :=
  { x with imported := some i.loaded }

/-- A method with one more attribute of a known type. -/
def attach (type : String × String) (x : Method) : Method :=
  { x with attributes := x.attributes.push (.resolved type.1 type.2) }

theorem foldl_attach (types : List (String × String)) (x : Method) :
    types.foldl (fun x type => attach type x) x
      = { x with attributes := x.attributes ++ (types.map fun type =>
          Attribute.resolved type.1 type.2).toArray } := by
  induction types generalizing x with
  | nil => simp
  | cons type types ih =>
    rw [List.foldl_cons, ih]
    simp [attach]

/-- A use of a method is a use of one of the methods. -/
theorem getElem?_of_mem_uses {α : Type} (uses : MethodOutline → List α)
    {methods : List MethodOutline} {k : Nat} {use : α}
    (h : (k, use) ∈ methods.zipIdx.flatMap fun (o, k) => (uses o).map (k, ·)) :
    ∃ o, methods[k]? = some o ∧ use ∈ uses o := by
  obtain ⟨⟨o, k'⟩, ho, hmem⟩ := List.mem_flatMap.1 h
  obtain ⟨use', huse, heq⟩ := List.mem_map.1 hmem
  cases heq
  exact ⟨o, List.mem_zipIdx_iff_getElem?.1 ho, huse⟩

/-- Changes to all methods of an outline, each by the uses of its own. -/
theorem foldl_uses {β : Type} (f : β → Method → Method) (uses : MethodOutline → List β)
    (m : Outline) (g : Nat → Nat × MethodOutline → Method) :
    (m.methods.zipIdx.flatMap fun (o, k) => (uses o).map (k, ·)).foldl
        (fun xs u => xs.modify u.1 (f u.2)) (m.listed.mapIdx g).toArray
      = (m.listed.mapIdx fun k listed =>
          (uses listed.2).foldl (fun x u => f u x) (g k listed)).toArray := by
  have hmethods : m.methods = m.listed.mapIdx fun _ listed => listed.2 := by
    rw [mapIdx_const]
    exact (listed_methods m.types 0).symm
  have hlength : (m.listed.mapIdx g).length = m.methods.length := by
    rw [hmethods, List.length_mapIdx, List.length_mapIdx]
  have hfold := foldl_modify f uses m.methods [] (m.listed.mapIdx g) hlength
  refine hfold.trans ?_
  conv => lhs; rw [hmethods]
  rw [zipWith_mapIdx]
  rfl

namespace Laid

variable {m : Outline} {p : Placement} {tables : TableStream}

/-- A native function is found through the row of its module. -/
theorem readImport_eq (h : Laid m p tables) {o : MethodOutline} (ho : o ∈ m.methods)
    {i : ImportOutline} (hi : i ∈ o.imported) (row k : Nat) :
    Assembly.readImport tables p.strings (p.importRow row (k, i)) = .ok i.loaded := by
  obtain ⟨j, hnative, hj⟩ := h.sound.native o ho i hi
  obtain ⟨table, htable, hget⟩ := h.holds.get_row (ρ := ModuleRefRow) (i := j) (by
    rw [Placement.typed_moduleRef, List.getElem?_mapIdx, hj]
    rfl)
  have hscope : (p.importRow row (k, i)).importScope = j + 1 := hnative
  have hmodule : p.strings.get (p.textAt i.module) = .ok i.module :=
    StringHeap.get_of_holdsText (h.sound.nativeText _ (List.mem_of_getElem? hj))
  have hentry : p.strings.get (p.importRow row (k, i)).importName = .ok i.entryPoint :=
    h.get_text (Placement.mem_texts_of_import ho hi).2
  rw [Assembly.readImport, htable, hscope]
  simp only [Option.bind_some, hget, Except.toOption, hmodule, bind_ok, hentry]
  rfl

/-- The methods get their native functions. -/
theorem bindImports_eq (h : Laid m p tables) {a : Assembly} {g : Nat → Nat × MethodOutline → Method}
    (ha : a.methods = (m.listed.mapIdx g).toArray) :
    a.bindImports tables p.strings = .ok { a with
      methods := (m.listed.mapIdx fun k listed =>
        listed.2.imported.toList.foldl (fun x i => i.bind x) (g k listed)).toArray } := by
  have hsize : a.methods.size = m.methods.length := by
    rw [ha, List.size_toArray, List.length_mapIdx, Outline.methods, ← listed_methods m.types 0,
      List.length_map]
    rfl
  have hbind : (m.imports.mapIdx p.importRow).foldlM
        (fun methods row => Assembly.bindImport tables p.strings methods row) a.methods
      = .ok (m.imports.foldl (fun xs u => xs.modify u.1 u.2.bind) a.methods) := by
    refine foldlM_mapIdx_ok (P := fun xs => xs.size = m.methods.length) ?_ hsize
    rintro row ⟨k, i⟩ hmem xs hxs
    obtain ⟨o, ho, hi⟩ := getElem?_of_mem_uses (fun o => o.imported.toList)
      (List.mem_of_getElem? hmem)
    have hlt := (List.getElem?_eq_some_iff.1 ho).1
    have hread := h.readImport_eq (List.mem_of_getElem? ho) (Option.mem_toList.1 hi) row k
    have hmethod : (p.importRow row (k, i)).member.table = .methodDef := rfl
    have hinside : 1 ≤ (p.importRow row (k, i)).member.row
        ∧ (p.importRow row (k, i)).member.row ≤ xs.size := by
      show 1 ≤ k + 1 ∧ k + 1 ≤ xs.size
      omega
    refine ⟨?_, by rw [Array.size_modify, hxs]⟩
    rw [Assembly.bindImport, if_pos hmethod, if_pos hinside, hread]
    rfl
  rw [Assembly.bindImports, h.holds.rows_table ImplMapRow, Placement.typed_implMap]
  have huses :
      m.imports.foldl (fun xs u => xs.modify u.1 u.2.bind) (m.listed.mapIdx g).toArray = _ :=
    foldl_uses ImportOutline.bind (fun o => o.imported.toList) m g
  simp only [List.foldlM_map, bind_ok]
  rw [hbind, bind_ok, ha, huses]
  rfl

/-- The constructor of an attribute leads to the type of the attribute. -/
theorem resolve_eq (h : Laid m p tables) {o : MethodOutline} (ho : o ∈ m.methods)
    {type : String × String} (htype : type ∈ o.attributes) {a : Assembly}
    (ha : a.references = (p.references.map fun (space, name) =>
      TypeName.topLevel space name).toArray) :
    a.resolve (tables.table MemberRefRow) p.strings ⟨.memberRef, p.memberOf type⟩
      = .resolved type.1 type.2 := by
  obtain ⟨i, j, hmember, hi, hj⟩ := h.sound.member o ho type htype
  obtain ⟨table, htable, hget⟩ := h.holds.get_row (ρ := MemberRefRow) (i := i) (by
    rw [Placement.typed_memberRef, List.getElem?_mapIdx, hi]
    rfl)
  have hlt : j + 1 < Token.rowSpan := by
    have hrows := h.rows_lt .typeRef
    have hj := (List.getElem?_eq_some_iff.1 hj).1
    have hlength : (p.contents m .typeRef).length = p.references.length := List.length_map _
    omega
  have hnumber : TableId.typeRef.number < 256 := by decide
  have htoken : (CodedIndex.token ⟨.typeRef, j + 1⟩).row = j + 1 := by
    rw [CodedIndex.token, Token.row_ofParts hnumber, Nat.mod_eq_of_lt hlt]
  have hreference : (CodedIndex.token ⟨.typeRef, j + 1⟩).table = 0x01 :=
    Token.table_ofParts hnumber
  have hnamed : a.describeRow (CodedIndex.token ⟨.typeRef, j + 1⟩) false
      = .ok (.named (.topLevel type.1 type.2) false) := by
    rw [Assembly.describeRow, Assembly.describeToken, hreference]
    simp only [htoken, rowOf?_succ, ha, List.getElem?_toArray, List.getElem?_map, hj,
      Option.map_some]
  have hparent : (p.memberRow i (j + 1)).parent = ⟨.typeRef, j + 1⟩ := rfl
  have htype : TableId.typeRef ∈ [TableId.typeDef, TableId.typeRef, TableId.typeSpec] := by decide
  simp only [Assembly.resolve, htable, hmember, Option.bind_some, hget, Except.toOption, hparent,
    if_pos htype, hnamed]
  rfl

/-- Every attribute row is about one of the methods, and its type is known. -/
theorem attributeUses_eq (h : Laid m p tables) {a : Assembly}
    (hsize : a.methods.size = m.methods.length)
    (ha : a.references = (p.references.map fun (space, name) =>
      TypeName.topLevel space name).toArray) :
    a.attributeUses tables p.strings = m.attributes.map fun (k, type) =>
      .applied k (.resolved type.1 type.2) := by
  have huse : ∀ i k type, m.attributes[i]? = some (k, type) →
      a.attributeUse (tables.table MemberRefRow) p.strings (.ok (p.attributeRow i (k, type)))
        = .applied k (.resolved type.1 type.2) := by
    intro i k type hmem
    obtain ⟨o, ho, htype⟩ := getElem?_of_mem_uses (fun o => o.attributes)
      (List.mem_of_getElem? hmem)
    have hlt := (List.getElem?_eq_some_iff.1 ho).1
    rw [Assembly.attributeUse]
    show (if CodedIndex.table ⟨.methodDef, k + 1⟩ = .methodDef then _ else _) = _
    rw [if_pos rfl]
    show (if 1 ≤ k + 1 ∧ k + 1 ≤ a.methods.size then _ else _) = _
    rw [if_pos (by omega)]
    exact congrArg _ (h.resolve_eq (List.mem_of_getElem? ho) htype ha)
  rw [Assembly.attributeUses, h.holds.rows_table CustomAttributeRow,
    Placement.typed_customAttribute, List.map_map, ← mapIdx_const, List.mapIdx_mapIdx,
    ← mapIdx_const, List.mapIdx_eq_mapIdx_iff]
  intro i hi
  exact huse i _ _ (List.getElem?_eq_getElem hi)

end Laid

end InteropTables
