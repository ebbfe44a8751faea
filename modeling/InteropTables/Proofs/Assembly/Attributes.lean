import InteropTables.Proofs.Assembly.Ownership
import InteropTables.Proofs.Metadata.OtherRows

/-!
# Attributes and the rest of a module

Attributes are attached last, and nothing that is loaded before them looks at their rows or at those
of the constructors. So these rows may hold anything: the module is loaded or refused as before, and
is the same but for the attributes; and the attributes of a method are what its own rows say.

* `loadStructure_congr`: a module without its attributes, from the rows of the other tables;
* `getElem?_foldl_apply`: what is attached to one method;
* `Assembly.withoutAttributes`, `Assembly.ownAttributes`: what is left, and what the rows say;
* `attributes_attachAttributes`: the attributes of a method are what the rows say;
* `attributes_stay_apart`: **two sets of rows give modules that differ in attributes alone.**
-/

namespace InteropTables

/-! ## 1. What is read of the same rows -/

namespace TableStream

variable {s s' : TableStream} {ρ : Type} [TableRow ρ]

theorem SameRows.rows_eq (h : SameRows ρ s s') :
    (s'.table ρ).elim [] Table.rows = (s.table ρ).elim [] Table.rows := by
  rcases h with ⟨hs, hs'⟩ | ⟨t, t', hs, hs', hcount, hget⟩
  · rw [hs, hs']
  · rw [hs, hs']
    simp only [Option.elim_some, Table.rows, hcount, hget]

theorem SameRows.allRows_eq (h : SameRows ρ s s') : s'.allRows ρ = s.allRows ρ := by
  unfold allRows
  rcases h with ⟨hs, hs'⟩ | ⟨t, t', hs, hs', hcount, hget⟩
  · rw [hs, hs']
  · rw [hs, hs']
    simp only [Table.allRows, Table.rows, hcount, hget]

end TableStream

open TableStream

variable {s s' : TableStream}

theorem readIdentity_congr (hassembly : SameRows AssemblyRow s s')
    (hmodule : SameRows ModuleRow s s') (strings : StringHeap) :
    readIdentity s' strings = readIdentity s strings := by
  unfold readIdentity
  rcases hassembly with ⟨hs, hs'⟩ | ⟨t, t', hs, hs', -, hget⟩
  · rw [hs, hs']
    rcases hmodule with ⟨hs, hs'⟩ | ⟨t, t', hs, hs', -, hget⟩
    · rw [hs, hs']
    · simp only [hs, hs', hget]
  · simp only [hs, hs', hget]

theorem readReferences_congr (h : SameRows TypeRefRow s s') (strings : StringHeap) :
    readReferences s' strings = readReferences s strings := by
  unfold readReferences
  rw [h.allRows_eq]

theorem readSpecifications_congr (h : SameRows TypeSpecRow s s') (blobs : BlobHeap) :
    readSpecifications s' blobs = readSpecifications s blobs := by
  unfold readSpecifications
  rw [h.rows_eq]

theorem readTypes_congr (htypes : SameRows TypeDefRow s s')
    (hnested : SameRows NestedClassRow s s') (strings : StringHeap) :
    readTypes s' strings = readTypes s strings := by
  have hrows := htypes.allRows_eq
  unfold readTypes
  unfold allRows at hrows
  rcases htypes with ⟨hs, hs'⟩ | ⟨t, t', hs, hs', -, -⟩
  · rw [hs, hs']
  · rw [hs, hs'] at hrows
    simp only [hs, hs', hnested.allRows_eq, hrows]

theorem readMethods_congr (h : SameRows MethodDefRow s s') (strings : StringHeap)
    (blobs : BlobHeap) : readMethods s' strings blobs = readMethods s strings blobs := by
  unfold readMethods
  rw [h.rows_eq]

/-- Lists of the same length whose places name the same rows are cut into the same lists. -/
theorem methodLists_congr (list list' : MethodList) (hlength : list'.length = list.length)
    (hat : ∀ i, list'.methodAt i = list.methodAt i) (methodCount : Nat) (starts : List Nat) :
    methodLists list' methodCount starts = methodLists list methodCount starts := by
  unfold methodLists listedMethod
  simp only [hlength, hat]

namespace Assembly

theorem assignMethods_congr (htypes : SameRows TypeDefRow s s')
    (hpointers : SameRows MethodPtrRow s s') (hcount : s'.rows .methodDef = s.rows .methodDef)
    (a : Assembly) : a.assignMethods s' = a.assignMethods s := by
  have hlists : ∀ starts, methodLists (methodList s') a.methods.size starts
      = methodLists (methodList s) a.methods.size starts := by
    intro starts
    unfold methodList
    rcases hpointers with ⟨hs, hs'⟩ | ⟨t, t', hs, hs', hrows, hget⟩
    · rw [hs, hs', hcount]
    · rw [hs, hs']
      refine methodLists_congr (.indirect t) (.indirect t') hrows (fun i => ?_) _ _
      show (t'.get i).map _ = (t.get i).map _
      rw [hget]
  unfold assignMethods
  simp only [htypes.allRows_eq, hlists]

theorem bindImports_congr (himports : SameRows ImplMapRow s s')
    (hmodules : SameRows ModuleRefRow s s') (a : Assembly) (strings : StringHeap) :
    a.bindImports s' strings = a.bindImports s strings := by
  have hread : ∀ row, readImport s' strings row = readImport s strings row := by
    intro row
    unfold readImport
    rcases hmodules with ⟨hs, hs'⟩ | ⟨t, t', hs, hs', -, hget⟩
    · rw [hs, hs']
    · simp only [hs, hs', Option.bind_some, hget]
  unfold bindImports bindImport
  simp only [himports.rows_eq, hread]

/-- **Without its attributes a module is loaded from the rows of other tables** than those of
attributes and of their constructors. -/
theorem loadStructure_congr (h : SameOutside [.customAttribute, .memberRef] s s')
    (hplaced : s.Placed) (strings : StringHeap) (blobs : BlobHeap) :
    loadStructure s' strings blobs = loadStructure s strings blobs := by
  have hsame : ∀ (ρ : Type) [TableRow ρ],
      TableRow.table ρ ∉ [TableId.customAttribute, .memberRef] → SameRows ρ s s' :=
    fun ρ _ hρ => h.sameRows hplaced hρ
  have hcount : s'.rows .methodDef = s.rows .methodDef := by
    rw [h.header]
    rfl
  unfold loadStructure
  rw [readIdentity_congr (hsame AssemblyRow (by decide)) (hsame ModuleRow (by decide)),
    readReferences_congr (hsame TypeRefRow (by decide)),
    readSpecifications_congr (hsame TypeSpecRow (by decide)),
    readTypes_congr (hsame TypeDefRow (by decide)) (hsame NestedClassRow (by decide)),
    readMethods_congr (hsame MethodDefRow (by decide))]
  simp only [assignMethods_congr (hsame TypeDefRow (by decide)) (hsame MethodPtrRow (by decide))
      hcount,
    bindImports_congr (hsame ImplMapRow (by decide)) (hsame ModuleRefRow (by decide))]

/-! ## 2. What is attached -/

/-- The attribute that the use of a row gives to the method with an index. -/
def AttributeUse.valueFor? (index : Nat) : AttributeUse → Option Attribute
  | .applied i value => if i = index then some value else none
  | _ => none

/-- **Attaching adds to a method what the uses give to it**, in their order, and changes nothing
else. The induction is on the uses. -/
theorem getElem?_foldl_apply (index : Nat) (uses : List AttributeUse) :
    ∀ methods : Array Method, (uses.foldl AttributeUse.apply methods)[index]?
      = methods[index]?.map fun m => { m with
          attributes := m.attributes ++ (uses.filterMap (·.valueFor? index)).toArray } := by
  induction uses with
  | nil =>
    intro methods
    simp
  | cons use uses ih =>
    intro methods
    rw [List.foldl_cons, ih]
    cases use with
    | applied i value =>
      rw [AttributeUse.apply, Array.getElem?_modify]
      by_cases hi : i = index
      · cases methods[index]? <;> simp [AttributeUse.valueFor?, hi]
      · simp [AttributeUse.valueFor?, hi]
    | _ => rfl

/-- The module without the attributes of its methods. -/
def withoutAttributes (a : Assembly) : Assembly :=
  { a with methods := a.methods.map fun m => { m with attributes := #[] } }

theorem withoutAttributes_attachAttributes (a : Assembly) (uses : List AttributeUse) :
    (a.attachAttributes uses).withoutAttributes = a.withoutAttributes := by
  unfold withoutAttributes attachAttributes
  congr 1
  refine Array.ext_getElem? fun i => ?_
  rw [Array.getElem?_map, Array.getElem?_map, getElem?_foldl_apply, Option.map_map]
  rfl

/-- Methods have no attributes before these are attached. -/
theorem attributes_of_loadStructure {tables : TableStream} {strings : StringHeap}
    {blobs : BlobHeap} {a : Assembly} (h : loadStructure tables strings blobs = .ok a) :
    ∀ m ∈ a.methods, m.attributes = #[] := by
  obtain ⟨b, c, -, hmethods, hassigned, hbound⟩ := exists_of_loadStructure h
  have hfirst := assignMethods_keeps (g := (·.attributes)) (fun _ _ => rfl) hassigned
  obtain ⟨bound, rfl, hkept⟩ := bindImports_keeps (g := (·.attributes)) (fun _ _ => rfl) hbound
  intro m hm
  have hmem : m.attributes ∈ bound.map (·.attributes) := Array.mem_map_of_mem hm
  rw [hkept, hfirst] at hmem
  obtain ⟨n, hn, hsame⟩ := Array.mem_map.1 hmem
  rw [← hsame]
  exact (fresh_of_readMethods hmethods n hn).2.2

/-! ## 3. What the rows say -/

/-- The attributes that the rows give to the method with an index: one for each row that can be read
and is about the method, in the order of the rows. -/
def ownAttributes (a : Assembly) (tables : TableStream) (strings : StringHeap) (index : Nat) :
    List Attribute :=
  let rows := ((tables.table CustomAttributeRow).elim [] Table.rows).filterMap Except.toOption
  (rows.filter fun row => row.parent = ⟨.methodDef, index + 1⟩).map fun row =>
    a.resolve (tables.table MemberRefRow) strings row.constructor

/-- Naming looks at types, references and specifications, and at no method. -/
theorem describeWithin_withMethods (a : Assembly) (methods : Array Method) (room : Nat) :
    ({ a with methods } : Assembly).describeWithin room = a.describeWithin room := by
  induction room with
  | zero => rfl
  | succ room ih =>
    funext type
    unfold describeWithin
    rw [ih]
    rfl

/-- The type behind a constructor, from what its row says of methods and from the names of types. -/
theorem resolve_congr {a b : Assembly}
    (howner : ∀ row, (rowOf? b.methods row).bind b.declaringType?
      = (rowOf? a.methods row).bind a.declaringType?)
    (hdescribe : b.describeRow = a.describeRow) : b.resolve = a.resolve := by
  funext members strings made
  unfold resolve
  simp only [howner, hdescribe]

/-- The type of an attribute depends on which types list methods, and on nothing else that is said
of methods. -/
theorem resolve_withMethods (a : Assembly) {methods : Array Method}
    (hsame : methods.map (·.declaring) = a.methods.map (·.declaring)) :
    ({ a with methods } : Assembly).resolve = a.resolve := by
  refine resolve_congr (fun row => ?_) ?_
  · have hrow : (rowOf? methods row).map (·.declaring)
        = (rowOf? a.methods row).map (·.declaring) := by
      unfold rowOf?
      split
      · rfl
      · rw [← Array.getElem?_map, ← Array.getElem?_map, hsame]
    have hbind : ∀ m? : Option Method, m?.bind a.declaringType?
        = (m?.map (·.declaring)).bind fun i? => i?.bind fun i => a.types[i]? := by
      intro m?
      cases m? <;> rfl
    exact (hbind _).trans (hrow ▸ (hbind _).symm)
  · unfold describeRow
    rw [describeWithin_withMethods]
    rfl

/-- What one row gives to a method that exists. -/
theorem valueFor?_attributeUse (a : Assembly) (members : Option (Table MemberRefRow))
    (strings : StringHeap) {index : Nat} (hindex : index < a.methods.size)
    (row : Except Fault CustomAttributeRow) :
    (a.attributeUse members strings row).valueFor? index
      = (row.toOption.filter fun row => row.parent = ⟨.methodDef, index + 1⟩).map fun row =>
          a.resolve members strings row.constructor := by
  unfold attributeUse
  cases row with
  | error cause => rfl
  | ok row =>
    obtain ⟨number, ⟨table, parent⟩, made, value⟩ := row
    dsimp only [Except.toOption, Option.filter]
    by_cases htable : table = .methodDef
    · rw [if_pos htable]
      by_cases hsame : parent = index + 1
      · subst hsame htable
        rw [if_pos ⟨Nat.succ_pos index, hindex⟩]
        simp [AttributeUse.valueFor?]
      · have hfilter : ¬ decide ((⟨table, parent⟩ : CodedIndex) = ⟨.methodDef, index + 1⟩) = true :=
          by simp [hsame]
        rw [if_neg hfilter]
        by_cases hrow : 1 ≤ parent ∧ parent ≤ a.methods.size
        · have hother : parent - 1 ≠ index := by omega
          rw [if_pos hrow]
          exact if_neg hother
        · rw [if_neg hrow]
          rfl
    · rw [if_neg htable, if_neg (by simp [htable])]
      rfl

/-- **The attributes of a method are those that the rows give to it.** -/
theorem attributes_attachAttributes {a : Assembly} (hnone : ∀ m ∈ a.methods, m.attributes = #[])
    (tables : TableStream) (strings : StringHeap) {index : Nat} {method : Method}
    (hmethod : (a.attachAttributes (a.attributeUses tables strings)).methods[index]?
      = some method) :
    method.attributes.toList = (a.attachAttributes (a.attributeUses tables strings)).ownAttributes
      tables strings index := by
  have hresolve : (a.attachAttributes (a.attributeUses tables strings)).resolve = a.resolve :=
    a.resolve_withMethods (attachAttributes_keeps a _)
  unfold ownAttributes
  rw [hresolve]
  unfold attachAttributes at hmethod
  dsimp only at hmethod
  rw [getElem?_foldl_apply] at hmethod
  obtain ⟨m, hm, rfl⟩ := Option.map_eq_some_iff.1 hmethod
  have hindex : index < a.methods.size := (Array.getElem?_eq_some_iff.1 hm).1
  rw [hnone m (Array.mem_of_getElem? hm)]
  dsimp only [attributeUses]
  rw [Array.empty_append, List.filterMap_map, List.filter_filterMap, List.map_filterMap]
  refine List.filterMap_congr fun row _ => ?_
  exact a.valueFor?_attributeUse _ strings hindex row

end Assembly

/-! ## 4. Two sets of rows -/

/-- The tables were read from a block of bytes. -/
def MetadataStreams.Parsed (streams : MetadataStreams) : Prop :=
  ∀ tables, streams.tables = some tables → ∃ data, TableStream.read data = .ok tables

/-- Two sets of streams that differ at most in rows of some tables. -/
structure MetadataStreams.SameOutside (free : List TableId) (streams streams' : MetadataStreams) :
    Prop where
  tables : Option.Rel (TableStream.SameOutside free) streams.tables streams'.tables
  strings : streams'.strings = streams.strings
  blobs : streams'.blobs = streams.blobs

namespace Assembly

/-- Every method has the attributes that the rows of the module give to it. -/
def OwnsAttributes (a : Assembly) (streams : MetadataStreams) : Prop :=
  ∀ tables strings, streams.tables = some tables → streams.strings = some strings →
    ∀ index method, a.methods[index]? = some method →
      method.attributes.toList = a.ownAttributes tables strings index

/-- With tables and strings, a module is loaded up to its attributes and then gets these. -/
theorem ofStreams_of_some {streams : MetadataStreams} {tables : TableStream} {strings : StringHeap}
    (htables : streams.tables = some tables) (hstrings : streams.strings = some strings) :
    ∃ report : Assembly → List Event, ofStreams streams
      = (loadStructure tables strings (streams.blobs.getD .nothing)).map fun a =>
          (a.attachAttributes (a.attributeUses tables strings), report a) := by
  unfold ofStreams
  rw [htables, hstrings]
  dsimp only
  cases loadStructure tables strings (streams.blobs.getD .nothing) with
  | error e => exact ⟨fun _ => [], rfl⟩
  | ok a => exact ⟨fun _ => _, rfl⟩

theorem ownsAttributes_attachAttributes {streams : MetadataStreams} {tables : TableStream}
    {strings : StringHeap} (htables : streams.tables = some tables)
    (hstrings : streams.strings = some strings) {a : Assembly}
    (hnone : ∀ m ∈ a.methods, m.attributes = #[]) :
    (a.attachAttributes (a.attributeUses tables strings)).OwnsAttributes streams := by
  intro tables' strings' htables' hstrings' index method hmethod
  obtain rfl := Option.some.inj (htables.symm.trans htables')
  obtain rfl := Option.some.inj (hstrings.symm.trans hstrings')
  exact attributes_attachAttributes hnone tables strings hmethod

/-- **Two sets of rows give modules that differ in attributes alone.** Whatever the rows of
attributes and of their constructors hold, the module is loaded or refused for the same reason, what
is loaded is the same but for attributes, and each method has one attribute for each row that can be
read and is about it, in the order of the rows. -/
theorem attributes_stay_apart {streams streams' : MetadataStreams} (hparsed : streams.Parsed)
    (h : streams.SameOutside [.customAttribute, .memberRef] streams') :
    (∃ e, ofStreams streams = .error e ∧ ofStreams streams' = .error e) ∨
    ∃ a events a' events',
      ofStreams streams = .ok (a, events) ∧ ofStreams streams' = .ok (a', events') ∧
      a'.withoutAttributes = a.withoutAttributes ∧
      a.OwnsAttributes streams ∧ a'.OwnsAttributes streams' := by
  obtain ⟨htables, hstrings, hblobs⟩ := h
  generalize hs : streams.tables = s? at htables
  generalize hs' : streams'.tables = s'? at htables
  cases htables with
  | none =>
    unfold ofStreams
    rw [hs, hs']
    exact .inl ⟨_, rfl, rfl⟩
  | @some s s' hsame =>
    cases htexts : streams.strings with
    | none =>
      unfold ofStreams
      rw [hs, hs', hstrings, htexts]
      exact .inl ⟨_, rfl, rfl⟩
    | some strings =>
      obtain ⟨data, hread⟩ := hparsed s hs
      have hload := loadStructure_congr hsame (placed_of_read hread) strings
        (streams.blobs.getD .nothing)
      have htexts' : streams'.strings = some strings := hstrings.trans htexts
      obtain ⟨report, hends⟩ := ofStreams_of_some hs htexts
      obtain ⟨report', hends'⟩ := ofStreams_of_some hs' htexts'
      rw [hblobs, hload] at hends'
      cases ha : loadStructure s strings (streams.blobs.getD .nothing) with
      | error e =>
        rw [ha] at hends hends'
        exact .inl ⟨e, hends, hends'⟩
      | ok a =>
        rw [ha] at hends hends'
        have hnone := attributes_of_loadStructure ha
        refine .inr ⟨_, _, _, _, hends, hends', ?_, ownsAttributes_attachAttributes hs htexts hnone,
          ownsAttributes_attachAttributes hs' htexts' hnone⟩
        rw [withoutAttributes_attachAttributes, withoutAttributes_attachAttributes]

/-- The tables of a module with one method, given the cells of the constructor and of the
attributes. The one type specification refers to itself. -/
def attributeTables (member attributes : List Nat) : ByteArray := Bytes.ofList <|
  [0, 0, 0, 0, 2, 0, 0, 1] ++ ofNatLE 8 0x08001445 ++ ofNatLE 8 0 ++
  -- The numbers of modules, types, methods, constructors, attributes and type specifications.
  [1, 2, 1, 1, 3, 1].flatMap (ofNatLE 4) ++
  [0, 1, 0, 0, 0, 0, 0, 1, 0, 0, 1, 1, 0, 0, 10, 0, 0, 1, 1].flatMap (ofNatLE 2) ++
  [0, 0, 0, 0x16, 10, 1, 1].flatMap (ofNatLE 2) ++
  (member ++ attributes).flatMap (ofNatLE 2) ++ ofNatLE 2 1

/-- The streams of a module with such tables. -/
def attributeStreams (data : ByteArray) : MetadataStreams where
  tables := (TableStream.read data).toOption
  strings := (StringHeap.ofBytes "\x00<Module>\x00T\x00".toUTF8).toOption
  blobs := (BlobHeap.ofBytes (Bytes.ofList [0, 2, 0x12, 6])).toOption

theorem parsed_attributeStreams (data : ByteArray) : (attributeStreams data).Parsed := by
  intro tables htables
  refine ⟨data, ?_⟩
  unfold attributeStreams at htables
  dsimp only at htables
  cases hread : TableStream.read data with
  | ok found =>
    rw [hread] at htables
    rw [Option.some.inj htables]
  | error e =>
    rw [hread] at htables
    cases htables

/-- Three attributes of the method, of a type of the module. -/
def namedRows : ByteArray :=
  attributeTables [16, 10, 1] [32, 11, 0, 32, 11, 0, 32, 11, 0]

/-- An attribute of no row, one of a method that does not exist, and one of the method; their
constructor has no name and belongs to a type that is specified by itself. -/
def hostileRows : ByteArray :=
  attributeTables [12, 65535, 65535] [31, 11, 0, 288, 11, 0, 32, 11, 0]

theorem attributes_stay_apart_hostile :
    (attributeStreams namedRows).Parsed ∧
    (attributeStreams namedRows).SameOutside [.customAttribute, .memberRef]
      (attributeStreams hostileRows) ∧
    ∃ a events a' events', ofStreams (attributeStreams namedRows) = .ok (a, events) ∧
      ofStreams (attributeStreams hostileRows) = .ok (a', events') ∧
      a'.withoutAttributes = a.withoutAttributes ∧
      (a.methods.toList.map (·.attributes.toList.map (·.fullName?))
        = [[some "T", some "T", some "T"]]) ∧
      a'.methods.toList.map (·.attributes.toList.map (·.fullName?)) = [[none]] := by
  have hparsed := parsed_attributeStreams namedRows
  have hsame : (attributeStreams namedRows).SameOutside [.customAttribute, .memberRef]
      (attributeStreams hostileRows) := by
    obtain ⟨s, hread, hbytes⟩ := exists_of_any (x := TableStream.read namedRows) (p := fun s =>
      decide (∀ i < namedRows.size, (∀ t ∈ [TableId.customAttribute, .memberRef],
        s.covers t i = false) → hostileRows[i]? = namedRows[i]?)) (by decide +kernel)
    have hbytes := of_decide_eq_true hbytes
    have heverywhere : ∀ i, (∀ t ∈ [TableId.customAttribute, .memberRef], s.covers t i = false) →
        hostileRows[i]? = namedRows[i]? := by
      intro i hi
      by_cases hinside : i < namedRows.size
      · exact hbytes i hinside hi
      · rw [getElem?_neg hostileRows i hinside, getElem?_neg namedRows i hinside]
    obtain ⟨s', hread', hsame⟩ :=
      TableStream.sameOutside_of_read hread (by decide +kernel) heverywhere
    refine ⟨?_, rfl, rfl⟩
    unfold attributeStreams
    rw [hread, hread']
    exact .some hsame
  refine ⟨hparsed, hsame, ?_⟩
  obtain ⟨⟨a, events⟩, ha, hnamed⟩ := exists_of_any (x := ofStreams (attributeStreams namedRows))
    (p := fun x => decide (x.1.methods.toList.map (·.attributes.toList.map (·.fullName?))
      = [[some "T", some "T", some "T"]])) (by decide +kernel)
  obtain ⟨⟨a', events'⟩, ha', hhostile⟩ := exists_of_any
    (x := ofStreams (attributeStreams hostileRows))
    (p := fun x => decide (x.1.methods.toList.map (·.attributes.toList.map (·.fullName?))
      = [[none]])) (by decide +kernel)
  rcases attributes_stay_apart hparsed hsame with ⟨e, he, -⟩ | ⟨b, _, b', _, hb, hb', happart, -, -⟩
  · cases ha.symm.trans he
  · obtain rfl := (Prod.mk.inj (Except.ok.inj (ha.symm.trans hb))).1
    obtain rfl := (Prod.mk.inj (Except.ok.inj (ha'.symm.trans hb'))).1
    exact ⟨_, _, _, _, ha, ha', happart, of_decide_eq_true hnamed, of_decide_eq_true hhostile⟩

end Assembly

end InteropTables
