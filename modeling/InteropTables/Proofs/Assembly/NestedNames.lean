import InteropTables.Proofs.Assembly.Ownership
import InteropTables.Proofs.Assembly.TypePaths
import InteropTables.Proofs.Machine.Names
import Mathlib.Data.List.Induction

/-!
# The names of nested rows

Types of the module are nested by rows of their own, of which the last one about a type counts;
references are nested by their scope. Both are named by following the rows around them, no further
than a limit, so both namings are exact.

* `lastEnclosing`, `getElem?_enclosingTypes`: **the last row about a type says what lies around
  it**;
* `definitionNesting`, `referenceNesting`: how definitions and references lie inside each other;
* `names_definitionName`, `names_referenceName`: one step of each naming;
* `nested_rows_named`: **a row is named exactly if its chain ends within the limit.**
-/

namespace InteropTables

/-! ## 1. Numbers of rows -/

section Numbers

variable {ρ : Type} [TableRow ρ] {t : Table ρ} {tables : TableStream}

/-- The rows of a table stand in the list of its rows by their numbers. -/
theorem Table.get_of_allRows {rows : List ρ} (h : t.allRows = .ok rows) {i : Nat} {row : ρ}
    (hrow : rows[i]? = some row) : t.get (i + 1) = .ok row := by
  have hall := mapM_eq_ok_iff.1 h
  obtain ⟨hlt, hget⟩ := List.getElem?_eq_some_iff.1 hrow
  have hcount : i < t.rowCount := by
    rw [← t.length_rows, hall.length_eq]
    exact hlt
  have hstep := hall.get (by rwa [t.length_rows]) hlt
  have hi := t.getElem?_rows hcount
  rw [List.getElem?_eq_getElem (by rwa [t.length_rows])] at hi
  rw [← Option.some.inj hi, ← hget]
  exact hstep

theorem TableStream.exists_get_of_allRows {rows : List ρ} (h : tables.allRows ρ = .ok rows)
    {i : Nat} {row : ρ} (hrow : rows[i]? = some row) :
    ∃ t, tables.table ρ = some t ∧ t.get (i + 1) = .ok row := by
  rw [TableStream.allRows] at h
  cases htable : tables.table ρ with
  | none =>
    rw [htable] at h
    obtain rfl := Except.ok.inj h
    cases hrow
  | some t =>
    rw [htable] at h
    exact ⟨t, rfl, Table.get_of_allRows h hrow⟩

end Numbers

theorem number_of_get {t : Table TypeDefRow} {number : Nat} {row : TypeDefRow}
    (h : t.get number = .ok row) : row.number = number := by
  rw [Table.get] at h
  split at h
  · obtain ⟨cells, -, h⟩ := exists_of_bind_ok h
    rw [← Except.ok.inj h]
    rfl
  · cases h

/-- The number of a type is its place in the table. -/
theorem number_of_allRows {tables : TableStream} {rows : List TypeDefRow}
    (h : tables.allRows TypeDefRow = .ok rows) {i : Nat} {row : TypeDefRow}
    (hrow : rows[i]? = some row) : row.number = i + 1 := by
  obtain ⟨t, -, hget⟩ := TableStream.exists_get_of_allRows h hrow
  exact number_of_get hget

/-! ## 2. Definitions -/

/-- The number of the type around a type, by the last row about it. -/
def lastEnclosing (rows : List NestedClassRow) (number : Nat) : Option Nat :=
  ((rows.filter fun row => row.nested = number).getLast?).map (·.enclosing)

/-- How the types of a module lie inside each other. -/
def definitionNesting (rows : List TypeDefRow) (nested : List NestedClassRow) :
    Nesting TypeDefRow where
  around? row := lastEnclosing nested row.number
  row? := rowOf? rows.toArray
  name := (·.name)
  space := (·.space)
  readsSpaces := False

/-- **The last row about a type says what lies around it.** -/
theorem getElem?_enclosingTypes {count number : Nat} (h : number ≤ count)
    (rows : List NestedClassRow) :
    (enclosingTypes count rows)[number]? = some (lastEnclosing rows number) := by
  induction rows using List.reverseRecOn with
  | nil => simp [enclosingTypes, lastEnclosing, Nat.lt_succ_of_le h]
  | append_singleton rows row ih =>
    obtain ⟨hlt, -⟩ := Array.getElem?_eq_some_iff.1 ih
    have hstep : enclosingTypes count (rows ++ [row])
        = (enclosingTypes count rows).setIfInBounds row.nested (some row.enclosing) := by
      simp [enclosingTypes]
    rw [hstep, Array.getElem?_setIfInBounds]
    by_cases hrow : row.nested = number
    · rw [if_pos hrow, if_pos (hrow ▸ hlt)]
      simp [lastEnclosing, hrow]
    · rw [if_neg hrow, ih]
      simp [lastEnclosing, hrow]

section Definitions

variable {rows : List TypeDefRow} {nested : List NestedClassRow} {strings : StringHeap}

theorem mem_iff_rowOf? {α : Type} {rows : List α} {row : α} :
    row ∈ rows ↔ ∃ number, rowOf? rows.toArray number = some row := by
  constructor
  · intro h
    obtain ⟨i, hi⟩ := List.mem_iff_getElem?.1 h
    exact ⟨i + 1, by rwa [rowOf?_succ, List.getElem?_toArray]⟩
  · rintro ⟨number, h⟩
    exact List.mem_toArray.1 (mem_of_rowOf? h)

/-- One step of naming a type of the module. -/
theorem names_definitionName {tables : TableStream} (hrows : tables.allRows TypeDefRow = .ok rows)
    (nested : List NestedClassRow) (strings : StringHeap) :
    (definitionNesting rows nested).Names strings
      (definitionName rows.toArray (enclosingTypes rows.length nested) strings) := by
  have haround : ∀ r, (definitionNesting rows nested).IsRow r →
      (enclosingTypes rows.length nested)[r.number]?.join = lastEnclosing nested r.number := by
    intro r hr
    obtain ⟨i, hi⟩ := List.mem_iff_getElem?.1 (mem_iff_rowOf?.2 hr)
    have hlt := (List.getElem?_eq_some_iff.1 hi).1
    rw [getElem?_enclosingTypes (by rw [number_of_allRows hrows hi]; exact hlt)]
    rfl
  refine ⟨fun r => ⟨_, rfl⟩, fun room r hr htop found => ?_,
    fun room r number hr hnumber found => ?_⟩
  · rw [definitionName, haround r hr, show lastEnclosing nested r.number = none from htop]
    constructor
    · intro h
      obtain ⟨name, hname, h⟩ := exists_of_bind_ok h
      obtain ⟨space, hspace, h⟩ := exists_of_bind_ok h
      exact ⟨space, name, hspace, hname, (Except.ok.inj h).symm⟩
    · rintro ⟨space, name, hspace, hname, rfl⟩
      exact bind_eq_ok hname (bind_eq_ok hspace rfl)
  · rw [definitionName, haround r hr, show lastEnclosing nested r.number = some number from hnumber]
    constructor
    · intro h
      obtain ⟨name, hname, h⟩ := exists_of_bind_ok h
      dsimp only at h
      split at h
      · cases h
      · rename_i outer hrow
        obtain ⟨around, haround, h⟩ := exists_of_bind_ok h
        exact ⟨outer, around, name, hrow, haround, hname, False.elim, (Except.ok.inj h).symm⟩
    · rintro ⟨outer, around, name, hrow, hnaming, hname, -, rfl⟩
      refine bind_eq_ok hname ?_
      dsimp only
      rw [show rowOf? rows.toArray number = some outer from hrow]
      exact bind_eq_ok hnaming rfl

end Definitions

/-! ## 3. References -/

/-- How type references lie inside each other. -/
def referenceNesting (rows : List TypeRefRow) : Nesting TypeRefRow where
  around? row := if row.scope.table = .typeRef ∧ row.scope.row ≠ 0 then some row.scope.row else none
  row? := rowOf? rows.toArray
  name := (·.name)
  space := (·.space)
  readsSpaces := True

/-- One step of naming a type reference. -/
theorem names_referenceName (rows : List TypeRefRow) (strings : StringHeap) :
    (referenceNesting rows).Names strings (referenceName rows.toArray strings) := by
  refine ⟨fun r => ⟨_, rfl⟩, fun room r _ htop found => ?_,
    fun room r number _ hnumber found => ?_⟩
  · have hscope : ¬ (r.scope.table = .typeRef ∧ r.scope.row ≠ 0) := by
      simpa [referenceNesting] using htop
    constructor
    · intro h
      obtain ⟨name, hname, h⟩ := exists_of_bind_ok h
      obtain ⟨space, hspace, h⟩ := exists_of_bind_ok h
      rw [if_neg hscope] at h
      exact ⟨space, name, hspace, hname, (Except.ok.inj h).symm⟩
    · rintro ⟨space, name, hspace, hname, rfl⟩
      refine bind_eq_ok hname (bind_eq_ok hspace ?_)
      rw [if_neg hscope]
      rfl
  · obtain ⟨hscope, rfl⟩ : (r.scope.table = .typeRef ∧ r.scope.row ≠ 0) ∧ r.scope.row = number := by
      simpa [referenceNesting] using hnumber
    constructor
    · intro h
      obtain ⟨name, hname, h⟩ := exists_of_bind_ok h
      obtain ⟨space, hspace, h⟩ := exists_of_bind_ok h
      rw [if_pos hscope] at h
      split at h
      · cases h
      · rename_i outer hrow
        obtain ⟨around, haround, h⟩ := exists_of_bind_ok h
        exact ⟨outer, around, name, hrow, haround, hname, fun _ => ⟨space, hspace⟩,
          (Except.ok.inj h).symm⟩
    · rintro ⟨outer, around, name, hrow, hnaming, hname, hread, rfl⟩
      obtain ⟨space, hspace⟩ := hread trivial
      refine bind_eq_ok hname (bind_eq_ok hspace ?_)
      rw [if_pos hscope, show rowOf? rows.toArray r.scope.row = some outer from hrow]
      exact bind_eq_ok hnaming rfl

/-! ## 4. Both -/

/-- **A row is named exactly if its chain ends within the limit.** Whatever rows lie around each
other, a type of the module and a type reference are named exactly if the rows around them end at
the top level after at most 63 levels and all texts that are read are valid; the name is that of the
path which the texts spell. A chain that meets a circle, or is longer, gives a failure. And naming
ends: a machine that counts the levels up, and stops if there is one too many, is never stopped. -/
theorem nested_rows_named (tables : TableStream) (strings : StringHeap) :
    (∀ rows nested, tables.allRows TypeDefRow = .ok rows →
      tables.allRows NestedClassRow = .ok nested → ∀ row ∈ rows,
        let enclosing := enclosingTypes rows.length nested
        let outcome := definitionName rows.toArray enclosing strings namingLimit row
        (definitionNesting rows nested).Exact strings 63 outcome row ∧
        Machine.definitionName rows.toArray enclosing strings Machine.namingFuel 0 row
          = .of outcome) ∧
    ∀ rows, tables.allRows TypeRefRow = .ok rows → ∀ row ∈ rows,
      let outcome := referenceName rows.toArray strings namingLimit row
      (referenceNesting rows).Exact strings 63 outcome row ∧
      Machine.referenceName rows.toArray strings Machine.namingFuel 0 row = .of outcome := by
  refine ⟨fun rows nested hrows _ row hrow => ⟨?_, ?_⟩, fun rows _ row hrow => ⟨?_, ?_⟩⟩
  · exact (names_definitionName hrows nested strings).isExact 63 (mem_iff_rowOf?.1 hrow)
  · exact (Machine.definitionName_follows _ _ rfl row).eq
  · exact (names_referenceName rows strings).isExact 63 (mem_iff_rowOf?.1 hrow)
  · exact (Machine.referenceName_follows _ rfl row).eq

/-! ## 5. A small module -/

/-- The tables of a module with nested types, given the cells of its references. The last row about
the third type puts it into the second one. The constructors of the two attributes are members of
the second and of the third reference. -/
def nestedTables (references : List (List Nat)) : ByteArray := Bytes.ofList <|
  [0, 0, 0, 0, 2, 0, 0, 1] ++ ofNatLE 8 0x20000001447 ++ ofNatLE 8 0 ++
  -- The numbers of modules, references, types, methods, constructors, attributes and nestings.
  [1, references.length, 3, 2, 2, 2, 2].flatMap (ofNatLE 4) ++
  [0, 1, 0, 0, 0].flatMap (ofNatLE 2) ++
  references.flatten.flatMap (ofNatLE 2) ++
  [0, 0, 1, 0, 0, 1, 1, 0, 0, 10, 22, 0, 1, 1, 0, 0, 16, 0, 0, 1, 3].flatMap (ofNatLE 2) ++
  [0, 0, 0, 0x16, 16, 1, 1, 0, 0, 0, 0x16, 16, 1, 1].flatMap (ofNatLE 2) ++
  [2 * 8 + 1, 16, 1, 3 * 8 + 1, 16, 1].flatMap (ofNatLE 2) ++
  [1 * 32, 1 * 8 + 3, 0, 2 * 32, 2 * 8 + 3, 0].flatMap (ofNatLE 2) ++
  [3, 1, 3, 2].flatMap (ofNatLE 2)

/-- Scope, name and namespace of four references, of which the second lies in the first one. -/
def systemReferences : List (List Nat) :=
  [[0, 10, 22], [1 * 4 + 3, 29, 0], [0, 35, 0], [0, 29, 22]]

/-- The texts of the module. -/
def nestedTexts : ByteArray :=
  ("\x00<Module>\x00Outer\x00Inner\x00System\x00Int32\x00System.Int32\x00" ++
    "System.Runtime.InteropServices\x00UnmanagedCallersOnlyAttribute\x00").toUTF8

/-- A type and a reference, each in another one. -/
theorem nested_rows_named_small :
    ∃ tables types nested references,
      TableStream.read (nestedTables systemReferences) = .ok tables ∧
      tables.allRows TypeDefRow = .ok types ∧ tables.allRows NestedClassRow = .ok nested ∧
      tables.allRows TypeRefRow = .ok references ∧
      (∃ row ∈ types, ∃ outers p, (definitionNesting types nested).Chain row outers ∧
        outers.length ≤ 63 ∧ (definitionNesting types nested).Spells ⟨nestedTexts⟩ row outers p ∧
        p.toName = ⟨"System", "Inner", "System.Outer+Inner"⟩) ∧
      ∃ row ∈ references, ∃ outers p, (referenceNesting references).Chain row outers ∧
        outers.length ≤ 63 ∧ (referenceNesting references).Spells ⟨nestedTexts⟩ row outers p ∧
        p.toName = ⟨"System", "Int32", "System.Outer+Int32"⟩ := by
  obtain ⟨tables, hread, h⟩ := exists_of_any (x := TableStream.read (nestedTables systemReferences))
    (p := fun tables => (tables.allRows TypeDefRow).toOption.any fun types =>
      (tables.allRows NestedClassRow).toOption.any fun nested =>
      (tables.allRows TypeRefRow).toOption.any fun references =>
        (types.any fun row => (definitionName types.toArray (enclosingTypes types.length nested)
          ⟨nestedTexts⟩ namingLimit row).toOption.any
            (· == ⟨"System", "Inner", "System.Outer+Inner"⟩)) &&
        references.any fun row => (referenceName references.toArray ⟨nestedTexts⟩ namingLimit
          row).toOption.any (· == ⟨"System", "Int32", "System.Outer+Int32"⟩)) (by decide +kernel)
  obtain ⟨types, htypes, h⟩ := exists_of_any h
  obtain ⟨nested, hnested, h⟩ := exists_of_any h
  obtain ⟨references, hreferences, h⟩ := exists_of_any h
  obtain ⟨hinner, hreference⟩ := Bool.and_eq_true_iff.1 h
  obtain ⟨hdefinitions, hnames⟩ := nested_rows_named tables ⟨nestedTexts⟩
  refine ⟨tables, types, nested, references, hread, htypes, hnested, hreferences, ?_, ?_⟩
  · obtain ⟨row, hrow, h⟩ := List.any_eq_true.1 hinner
    obtain ⟨found, hfound, h⟩ := exists_of_any h
    obtain ⟨outers, p, hchain, hle, hspells, rfl⟩ :=
      ((hdefinitions types nested htypes hnested row hrow).1.ok_iff found).1 hfound
    exact ⟨row, hrow, outers, p, hchain, hle, hspells, eq_of_beq h⟩
  · obtain ⟨row, hrow, h⟩ := List.any_eq_true.1 hreference
    obtain ⟨found, hfound, h⟩ := exists_of_any h
    obtain ⟨outers, p, hchain, hle, hspells, rfl⟩ :=
      ((hnames references hreferences row hrow).1.ok_iff found).1 hfound
    exact ⟨row, hrow, outers, p, hchain, hle, hspells, eq_of_beq h⟩

end InteropTables
