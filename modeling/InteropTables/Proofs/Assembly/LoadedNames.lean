import InteropTables.Proofs.Assembly.Attributes
import InteropTables.Proofs.Assembly.MemberTypes
import InteropTables.Proofs.Assembly.NestedNames

/-!
# The names in a loaded module

A module is loaded only if all its rows are named, so a row of a loaded module lies on a path, and
the names that are kept for it are those of this path. What is loaded behind the names leaves them
alone.

* `Nesting.At`: the row with a number lies on a path; `Spells.unique`: and on one only;
* `TableStream.TypeAt`: the paths of definitions and references;
* `names_of_loadStructure`: the names that a module keeps are those that are read first;
* `Assembly.rowOf?_typeNames_iff`: **the names kept for a row are those of its path.**
-/

namespace InteropTables

/-! ## 1. Rows on paths -/

namespace Nesting

variable {ρ : Type} {n : Nesting ρ} {strings : StringHeap} {r : ρ} {outers : List ρ}
  {p q : TypePath}

/-- The texts on a way are those of one path. -/
theorem Spells.unique (h : n.Spells strings r outers p) (h' : n.Spells strings r outers q) :
    p = q := by
  have hright : Relator.RightUnique fun row text => strings.get (n.name row) = .ok text :=
    fun _ _ _ htext htext' => Except.ok.inj (htext.symm.trans htext')
  have hnames : p.names = q.names :=
    List.reverse_injective (hright.forall₂ h.names h'.names)
  obtain ⟨houtermost, hinner⟩ := List.cons.inj hnames
  obtain ⟨space, outermost, inner⟩ := p
  obtain ⟨space', outermost', inner'⟩ := q
  obtain rfl : space = space' := Except.ok.inj (h.space.symm.trans h'.space)
  obtain rfl : outermost = outermost' := houtermost
  obtain rfl : inner = inner' := hinner
  rfl

/-- The row with a number lies on a path. -/
def At (n : Nesting ρ) (strings : StringHeap) (number : Nat) (p : TypePath) : Prop :=
  ∃ row outers, n.row? number = some row ∧ n.Chain row outers ∧ n.Spells strings row outers p

end Nesting

/-- A row of a table lies on a path, in the table of definitions or in that of references. -/
inductive TableStream.TypeAt (tables : TableStream) (strings : StringHeap) :
    TableId → Nat → TypePath → Prop where
  | definition {rows : List TypeDefRow} {nested : List NestedClassRow} {number : Nat} {p : TypePath}
      (hrows : tables.allRows TypeDefRow = .ok rows)
      (hnested : tables.allRows NestedClassRow = .ok nested)
      (h : (definitionNesting rows nested).At strings number p) :
      TypeAt tables strings .typeDef number p
  | reference {rows : List TypeRefRow} {number : Nat} {p : TypePath}
      (hrows : tables.allRows TypeRefRow = .ok rows)
      (h : (referenceNesting rows).At strings number p) :
      TypeAt tables strings .typeRef number p

/-! ## 2. Names of all rows -/

/-- The results of a list of steps, by their numbers. -/
theorem rowOf?_of_mapM {ε α β : Type} {f : α → Except ε β} {l : List α} {found : List β}
    (h : l.mapM f = .ok found) {number : Nat} {b : β} :
    rowOf? found.toArray number = some b ↔
      ∃ a, rowOf? l.toArray number = some a ∧ f a = .ok b := by
  cases number with
  | zero => simp [rowOf?]
  | succ i =>
    simp only [rowOf?_succ, List.getElem?_toArray]
    have hall := mapM_eq_ok_iff.1 h
    constructor
    · intro hb
      obtain ⟨hlt, rfl⟩ := List.getElem?_eq_some_iff.1 hb
      have hlt' : i < l.length := by rwa [hall.length_eq]
      exact ⟨l[i], List.getElem?_eq_getElem hlt', hall.get hlt' hlt⟩
    · rintro ⟨a, ha, hb⟩
      obtain ⟨hlt, rfl⟩ := List.getElem?_eq_some_iff.1 ha
      have hlt' : i < found.length := by rwa [← hall.length_eq]
      have hget : f l[i] = .ok found[i] := hall.get hlt hlt'
      rw [List.getElem?_eq_getElem hlt', Except.ok.inj (hget.symm.trans hb)]

/-- If all rows of a table are named, then the names of a row are those of the path on which it
lies. -/
theorem Nesting.Names.rowOf?_iff {ρ : Type} {n : Nesting ρ} {strings : StringHeap}
    {naming : (room : Nat) → ρ → Except Fault TypeName} (h : n.Names strings naming)
    {rows : List ρ} (hrows : n.row? = rowOf? rows.toArray) {room : Nat} {names : List TypeName}
    (hnames : rows.mapM (naming room) = .ok names) {number : Nat} {name : TypeName} :
    rowOf? names.toArray number = some name ↔
      ∃ p, n.At strings number p ∧ name = p.toName := by
  rw [rowOf?_of_mapM hnames, ← hrows]
  constructor
  · rintro ⟨row, hrow, hname⟩
    obtain ⟨outers, p, hchain, -, hspells, rfl⟩ := (h.ok_iff ⟨number, hrow⟩).1 hname
    exact ⟨p, ⟨row, outers, hrow, hchain, hspells⟩, rfl⟩
  · rintro ⟨p, ⟨row, outers, hrow, hchain, hspells⟩, rfl⟩
    have hmem : row ∈ rows := mem_iff_rowOf?.2 ⟨number, hrows ▸ hrow⟩
    obtain ⟨found, -, hfound⟩ := exists_mem_of_forall₂ (mapM_eq_ok_iff.1 hnames) row hmem
    -- The row has one chain and one path, so these are the ones by which it was named.
    obtain ⟨outers', q, hchain', -, hspells', rfl⟩ := (h.ok_iff ⟨number, hrow⟩).1 hfound
    obtain rfl := hchain.unique hchain'
    obtain rfl := hspells.unique hspells'
    exact ⟨row, hrow, hfound⟩

section Read

variable {tables : TableStream} {strings : StringHeap} {number : Nat} {name : TypeName}

theorem rowOf?_readReferences {names : Array TypeName}
    (h : readReferences tables strings = .ok names) :
    rowOf? names number = some name ↔
      ∃ p, tables.TypeAt strings .typeRef number p ∧ name = p.toName := by
  obtain ⟨rows, hrows, h⟩ := exists_of_bind_ok h
  obtain ⟨found, hfound, h⟩ := exists_of_bind_ok h
  obtain rfl := Except.ok.inj h
  rw [(names_referenceName rows strings).rowOf?_iff rfl hfound]
  constructor
  · rintro ⟨p, hp, rfl⟩
    exact ⟨p, .reference hrows hp, rfl⟩
  · rintro ⟨p, hp, rfl⟩
    cases hp with
    | reference hrows' hp =>
      obtain rfl := Except.ok.inj (hrows.symm.trans hrows')
      exact ⟨p, hp, rfl⟩

theorem rowOf?_readTypes {types : Array TypeInfo} (h : readTypes tables strings = .ok types) :
    rowOf? (types.map (·.name)) number = some name ↔
      ∃ p, tables.TypeAt strings .typeDef number p ∧ name = p.toName := by
  rw [readTypes] at h
  cases htable : tables.table TypeDefRow with
  | none =>
    rw [htable] at h
    obtain rfl := Except.ok.inj h
    refine iff_of_false (by simp [rowOf?]) ?_
    rintro ⟨p, hp, -⟩
    cases hp with
    | definition hrows hnested hp =>
      rw [TableStream.allRows, htable] at hrows
      obtain rfl := Except.ok.inj hrows
      obtain ⟨row, _, hrow, -⟩ := hp
      exact absurd (mem_iff_rowOf?.2 ⟨number, hrow⟩) List.not_mem_nil
  | some table =>
    rw [htable] at h
    obtain ⟨nested, hnested, h⟩ := exists_of_bind_ok h
    obtain ⟨rows, hread, h⟩ := exists_of_bind_ok h
    obtain ⟨found, hfound, h⟩ := exists_of_bind_ok h
    obtain rfl := Except.ok.inj h
    have hrows : tables.allRows TypeDefRow = .ok rows := by
      rw [TableStream.allRows, htable]
      exact hread
    have hnames : rows.mapM (definitionName rows.toArray (enclosingTypes rows.length nested) strings
        namingLimit) = .ok (found.map (·.name)) := by
      rw [mapM_eq_ok_iff, List.forall₂_map_right_iff]
      refine (mapM_eq_ok_iff.1 hfound).imp fun row info hinfo => ?_
      obtain ⟨name, hname, hinfo⟩ := exists_of_bind_ok hinfo
      rw [← Except.ok.inj hinfo]
      exact hname
    rw [List.map_toArray, (names_definitionName hrows nested strings).rowOf?_iff rfl hnames]
    constructor
    · rintro ⟨p, hp, rfl⟩
      exact ⟨p, .definition hrows hnested hp, rfl⟩
    · rintro ⟨p, hp, rfl⟩
      cases hp with
      | definition hrows' hnested' hp =>
        obtain rfl := Except.ok.inj (hrows.symm.trans hrows')
        obtain rfl := Except.ok.inj (hnested.symm.trans hnested')
        exact ⟨p, hp, rfl⟩

end Read

/-! ## 3. Loaded modules -/

namespace Assembly

variable {tables : TableStream} {strings : StringHeap} {a b : Assembly}

theorem names_of_assignMethods (h : a.assignMethods tables = .ok b)
    (htypes : a.types.size = (tables.table TypeDefRow).elim 0 Table.rowCount) :
    b.types.map (·.name) = a.types.map (·.name) ∧ b.references = a.references := by
  obtain ⟨rows, hrows, h⟩ := exists_of_bind_ok h
  obtain ⟨lists, hlists, h⟩ := exists_of_bind_ok h
  obtain rfl := Except.ok.inj h
  have hsize : lists.length = a.types.size := by
    rw [length_of_methodLists hlists, List.length_map, length_allRows hrows, htypes]
  refine ⟨Array.ext (by simp [hsize]) fun i hi hi' => ?_, rfl⟩
  simp

/-- The names that a module keeps are those that are read first. -/
theorem names_of_loadStructure {blobs : BlobHeap} (h : loadStructure tables strings blobs = .ok a) :
    (∃ types, readTypes tables strings = .ok types ∧ a.typeNames .typeDef = types.map (·.name)) ∧
      readReferences tables strings = .ok (a.typeNames .typeRef) := by
  unfold loadStructure at h
  obtain ⟨identity, -, h⟩ := exists_of_bind_ok h
  obtain ⟨references, hreferences, h⟩ := exists_of_bind_ok h
  obtain ⟨specifications, -, h⟩ := exists_of_bind_ok h
  obtain ⟨types, htypes, h⟩ := exists_of_bind_ok h
  obtain ⟨methods, -, h⟩ := exists_of_bind_ok h
  obtain ⟨c, hc, h⟩ := exists_of_bind_ok h
  obtain ⟨bound, rfl, -⟩ := bindImports_keeps (g := fun _ => ()) (fun _ _ => rfl) h
  obtain ⟨hnames, hsame⟩ := names_of_assignMethods hc (size_readTypes htypes)
  exact ⟨⟨types, htypes, hnames⟩, hreferences.trans (congrArg _ hsame.symm)⟩

variable {streams : MetadataStreams} {events : List Event}

/-- A loaded module is its structure with its attributes. -/
theorem exists_structure (hload : ofStreams streams = .ok (a, events))
    (htables : streams.tables = some tables) (hstrings : streams.strings = some strings) :
    ∃ before, loadStructure tables strings (streams.blobs.getD .nothing) = .ok before ∧
      before.attachAttributes (before.attributeUses tables strings) = a := by
  obtain ⟨report, hends⟩ := ofStreams_of_some htables hstrings
  rw [hload] at hends
  obtain ⟨before, hbefore, hloaded⟩ := exists_of_map_ok hends.symm
  exact ⟨before, hbefore, (Prod.mk.inj hloaded).1⟩

theorem ownsAttributes_of_ofStreams (hload : ofStreams streams = .ok (a, events))
    (htables : streams.tables = some tables) (hstrings : streams.strings = some strings) :
    a.OwnsAttributes streams := by
  obtain ⟨before, hbefore, rfl⟩ := exists_structure hload htables hstrings
  exact ownsAttributes_attachAttributes htables hstrings (attributes_of_loadStructure hbefore)

/-- **The names kept for a row are those of its path.** -/
theorem rowOf?_typeNames_iff (hload : ofStreams streams = .ok (a, events))
    (htables : streams.tables = some tables) (hstrings : streams.strings = some strings)
    {t : TableId} {number : Nat} {name : TypeName} :
    rowOf? (a.typeNames t) number = some name ↔
      ∃ p, tables.TypeAt strings t number p ∧ name = p.toName := by
  obtain ⟨before, hbefore, rfl⟩ := exists_structure hload htables hstrings
  obtain ⟨⟨types, htypes, hnames⟩, hreferences⟩ := names_of_loadStructure hbefore
  by_cases hdefinition : t = .typeDef
  · subst hdefinition
    exact hnames ▸ rowOf?_readTypes htypes
  · by_cases hreference : t = .typeRef
    · subst hreference
      exact rowOf?_readReferences hreferences
    · refine iff_of_false ?_ ?_
      · cases t <;> simp_all [typeNames, rowOf?]
      · rintro ⟨p, hp, -⟩
        cases hp <;> contradiction

/-- The streams of a small module with nested types; its methods have one signature. -/
def nestedStreams (references : List (List Nat)) : MetadataStreams where
  tables := (TableStream.read (nestedTables references)).toOption
  strings := (StringHeap.ofBytes nestedTexts).toOption
  blobs := (BlobHeap.ofBytes (Bytes.ofList [0, 3, 0, 0, 1])).toOption

/-- What can be checked of a module and of its tables can be checked by loading it. -/
theorem exists_loaded (streams : MetadataStreams) {p : Assembly → TableStream → StringHeap → Bool}
    (h : ((ofStreams streams).toOption.any fun x => streams.tables.any fun tables =>
      streams.strings.any (p x.1 tables)) = true) :
    ∃ a events tables strings, ofStreams streams = .ok (a, events) ∧
      streams.tables = some tables ∧ streams.strings = some strings ∧ p a tables strings := by
  obtain ⟨⟨a, events⟩, hload, h⟩ := exists_of_any h
  obtain ⟨tables, htables, h⟩ := (Option.any_eq_true _ _).1 h
  obtain ⟨strings, hstrings, h⟩ := (Option.any_eq_true _ _).1 h
  exact ⟨a, events, tables, strings, hload, htables, hstrings, h⟩

end Assembly

end InteropTables
