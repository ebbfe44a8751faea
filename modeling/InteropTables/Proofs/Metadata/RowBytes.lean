import InteropTables.Proofs.Machine.Blocks
import InteropTables.Proofs.Metadata.CodedColumns
import InteropTables.Proofs.Metadata.RowReaders

/-!
# Rows and their bytes

A row is as large as its columns together. A reader that finds so many bytes takes them all and no
others, so rows are read one behind the other without a look at what stands next.

* `StrayTag`, `Cells.read_cases`: a row inside its block is refused only for a tag that selects no
  table;
* `Table.exists_get`: so a table whose tags are all in use has all its rows;
* `RowKind.ReadsRow`, `RowKind.readsRow`: what a reader does when all bytes of its row are there;
* `RowKind.get_eq_reader`: a look-up in a table does what the reader does;
* `readers_follow_columns`: **a reader takes the bytes of its row, all of them and no others**, and
  so does a look-up in a table.
-/

namespace InteropTables

/-! ## 1. Rows that are refused -/

section Stray

variable {sizes : TableSizes} {data : ByteArray}

/-- A coded column of a row holds a tag that selects no table. -/
def StrayTag (sizes : TableSizes) (data : ByteArray) (columns : List Column) (offset : Nat) :
    Prop :=
  ∃ front kind behind value, columns = front ++ .coded kind :: behind ∧
    Bytes.word data (sizes.width (.coded kind)) (offset + sizes.widthSum front) = .ok value ∧
    kind.targets.length ≤ value % kind.tagSpan

theorem not_strayTag_nil (offset : Nat) : ¬ StrayTag sizes data [] offset := by
  rintro ⟨front, kind, behind, value, hcolumns, -, -⟩
  cases front <;> cases hcolumns

/-- The stray tag is in the first column or in one behind it. -/
theorem strayTag_cons (c : Column) (cs : List Column) (offset : Nat) :
    StrayTag sizes data (c :: cs) offset ↔
      (∃ kind value, c = .coded kind ∧ Bytes.word data (sizes.width c) offset = .ok value ∧
        kind.targets.length ≤ value % kind.tagSpan) ∨
      StrayTag sizes data cs (offset + sizes.width c) := by
  constructor
  · rintro ⟨front, kind, behind, value, hcolumns, hword, hstray⟩
    cases front with
    | nil =>
      obtain ⟨rfl, rfl⟩ := List.cons.inj hcolumns
      exact .inl ⟨kind, value, rfl, hword, hstray⟩
    | cons d front =>
      obtain ⟨rfl, rfl⟩ := List.cons.inj hcolumns
      refine .inr ⟨front, kind, behind, value, rfl, ?_, hstray⟩
      rw [Nat.add_assoc]
      exact hword
  · rintro (⟨kind, value, rfl, hword, hstray⟩ | ⟨front, kind, behind, value, rfl, hword, hstray⟩)
    · exact ⟨[], kind, cs, value, rfl, hword, hstray⟩
    · refine ⟨c :: front, kind, behind, value, rfl, ?_, hstray⟩
      rw [Nat.add_assoc] at hword
      exact hword

/-- A column has a content for every number, unless it is coded and the tag of the number is
stray. -/
theorem Column.cellOf_cases (c : Column) (n : Nat) :
    (∃ cell, c.cellOf n = .ok cell ∧
      ∀ kind, c = .coded kind → n % kind.tagSpan < kind.targets.length) ∨
    (c.cellOf n = .error .outOfBounds ∧
      ∃ kind, c = .coded kind ∧ kind.targets.length ≤ n % kind.tagSpan) := by
  cases c with
  | coded kind =>
    cases hdecode : kind.decode n with
    | ok i =>
      refine .inl ⟨i, hdecode, fun _ hkind => ?_⟩
      obtain rfl := Column.coded.inj hkind
      refine Nat.lt_of_not_le fun hstray => ?_
      rw [(kind.decode_eq_error_iff n).2 hstray] at hdecode
      cases hdecode
    | error e =>
      have hstray : kind.targets.length ≤ n % kind.tagSpan := by
        refine Nat.le_of_not_lt fun hlt => ?_
        rw [CodedKind.decode, List.getElem?_eq_getElem hlt] at hdecode
        cases hdecode
      exact .inr ⟨(kind.decode_eq_error_iff n).2 hstray, kind, rfl, hstray⟩
  | _ => exact .inl ⟨n, rfl, fun _ h => by cases h⟩

/-- **Cells inside the block are refused only for a stray tag.** The induction is on the columns;
the cells in front are read already. -/
theorem Cells.read_cases {columns : List Column} {offset : Nat}
    (h : offset + sizes.widthSum columns ≤ data.size) :
    (∃ cells, Cells.read sizes data columns offset = .ok cells ∧
      ¬ StrayTag sizes data columns offset) ∨
    (Cells.read sizes data columns offset = .error .outOfBounds ∧
      StrayTag sizes data columns offset) := by
  induction columns generalizing offset with
  | nil => exact .inl ⟨(), rfl, not_strayTag_nil offset⟩
  | cons c cs ih =>
    have hsum : sizes.widthSum (c :: cs) = sizes.width c + sizes.widthSum cs := rfl
    have hword : Bytes.word data (sizes.width c) offset
        = .ok (Bytes.number data (sizes.width c) offset) := Bytes.word_of_le (by omega)
    generalize Bytes.number data (sizes.width c) offset = n at hword
    rw [Cells.read, hword, bind_ok, strayTag_cons]
    rcases c.cellOf_cases n with ⟨cell, hcell, htag⟩ | ⟨hcell, kind, hkind, hstray⟩
    · have hfirst : ¬ ∃ kind value, c = .coded kind ∧
          Bytes.word data (sizes.width c) offset = .ok value ∧
          kind.targets.length ≤ value % kind.tagSpan := by
        rintro ⟨kind, value, hkind, hvalue, hstray⟩
        obtain rfl := Except.ok.inj (hword.symm.trans hvalue)
        exact Nat.not_lt.2 hstray (htag kind hkind)
      rw [hcell, bind_ok]
      rcases @ih (offset + sizes.width c) (by omega) with
        ⟨cells, hcells, hnone⟩ | ⟨herror, hsome⟩
      · exact .inl ⟨(cell, cells), by rw [hcells]; rfl, not_or.2 ⟨hfirst, hnone⟩⟩
      · exact .inr ⟨by rw [herror]; rfl, .inr hsome⟩
    · exact .inr ⟨by rw [hcell]; rfl, .inl ⟨kind, n, hkind, hword, hstray⟩⟩

/-- No tag is stray if every tag of every coded column selects a table. -/
theorem not_strayTag {columns : List Column}
    (htags : ∀ kind, .coded kind ∈ columns → kind.tagSpan ≤ kind.targets.length) (offset : Nat) :
    ¬ StrayTag sizes data columns offset := by
  rintro ⟨front, kind, behind, value, rfl, -, hstray⟩
  have hspan := htags kind (List.mem_append_right _ (List.mem_cons_self ..))
  have hlt := Nat.mod_lt value kind.tagSpan_pos
  omega

/-- So every row of a table inside its block can be read. -/
theorem Table.exists_get {ρ : Type} [TableRow ρ] {t : Table ρ}
    (hinside : t.start + t.size ≤ t.data.size)
    (htags : ∀ kind, .coded kind ∈ (TableRow.table ρ).columns → kind.tagSpan ≤ kind.targets.length)
    {number : Nat} (hfirst : 1 ≤ number) (hlast : number ≤ t.rowCount) :
    ∃ row, t.get number = .ok row := by
  have hrow : (number - 1) * t.rowSize + t.rowSize ≤ t.size := by
    rw [← Nat.succ_mul, Table.size]
    exact Nat.mul_le_mul_right _ (by omega)
  have hfits : t.start + (number - 1) * t.rowSize + t.sizes.widthSum (TableRow.table ρ).columns
      ≤ t.data.size := by
    show _ + t.rowSize ≤ _
    omega
  unfold Table.get
  rw [if_pos ⟨hfirst, hlast⟩]
  rcases Cells.read_cases hfits with ⟨cells, hcells, -⟩ | ⟨-, hstray⟩
  · exact ⟨_, bind_eq_ok hcells rfl⟩
  · exact absurd hstray (not_strayTag htags _)

end Stray

/-! ## 2. Rows and their bytes -/

/-- So many bytes from a place on. -/
def Bytes.block (data : ByteArray) (offset size : Nat) : ByteArray :=
  ofList (((toList data).drop offset).take size)

namespace RowKind

variable (k : RowKind) (sizes : TableSizes) (data : ByteArray)

/-- The bytes of a row. -/
def rowSize : Nat :=
  sizes.rowSize k.table

/-- What the reader of a row does when all bytes of the row are there: it reads by the list of
columns; it gives what it gives for the bytes of the row alone; it stops behind them; it is refused
for a stray tag and for nothing else, so never if no column is coded. -/
structure ReadsRow (number offset : Nat) : Prop where
  by_columns : k.reader sizes data number offset
    = (Cells.read sizes data k.table.columns offset).map fun cells =>
        (TableRow.ofCells number cells, offset + k.rowSize sizes)
  own_bytes : k.reader sizes data number offset
    = (k.reader sizes (Bytes.block data offset (k.rowSize sizes)) number 0).map fun r =>
        (r.1, offset + r.2)
  ends : ∀ row stop, k.reader sizes data number offset = .ok (row, stop) →
    stop = offset + k.rowSize sizes
  error_iff : ∀ e, k.reader sizes data number offset = .error e ↔
    e = .outOfBounds ∧ StrayTag sizes data k.table.columns offset
  plain : (∀ kind, .coded kind ∉ k.table.columns) →
    ∃ row, k.reader sizes data number offset = .ok (row, offset + k.rowSize sizes)

variable {k sizes data} {number offset start rowCount : Nat}

/-- Cells are read from the bytes of their row alone. -/
theorem read_block (h : offset + k.rowSize sizes ≤ data.size) :
    Cells.read sizes data k.table.columns offset
      = Cells.read sizes (Bytes.block data offset (k.rowSize sizes)) k.table.columns 0 := by
  refine Cells.read_congr _ _ _ fun i w hi => ?_
  rw [Nat.zero_add]
  have hlength : offset + k.rowSize sizes ≤ (Bytes.toList data).length := by
    rwa [Bytes.length_toList]
  exact Bytes.word_part hlength hi

theorem readsRow (h : offset + k.rowSize sizes ≤ data.size) :
    k.ReadsRow sizes data number offset := by
  have hcolumns := k.takesColumns sizes data number offset
  have hblock := k.takesColumns sizes (Bytes.block data offset (k.rowSize sizes)) number 0
  rw [← read_block h, Nat.zero_add] at hblock
  refine ⟨hcolumns, ?_, ?_, ?_, ?_⟩
  · rw [hcolumns, hblock]
    cases Cells.read sizes data k.table.columns offset <;> rfl
  · intro row stop hrow
    rw [hcolumns] at hrow
    obtain ⟨cells, -, hrow⟩ := exists_of_map_ok hrow
    exact (Prod.mk.inj hrow).2.symm
  · intro e
    rw [hcolumns]
    rcases Cells.read_cases h with ⟨cells, hcells, hnone⟩ | ⟨herror, hsome⟩
    · rw [hcells]
      exact ⟨fun h => (nomatch h), fun h => absurd h.2 hnone⟩
    · rw [herror]
      exact ⟨fun h => ⟨(Except.error.inj h).symm, hsome⟩, fun h => h.1 ▸ rfl⟩
  · intro hplain
    rw [hcolumns]
    rcases Cells.read_cases h with ⟨cells, hcells, -⟩ | ⟨-, front, kind, behind, _, hmem, -⟩
    · rw [hcells]
      exact ⟨_, rfl⟩
    · refine absurd ?_ (hplain kind)
      rw [hmem]
      exact List.mem_append_right _ (List.mem_cons_self ..)

/-- A table that is accepted lies inside its block. -/
theorem inside_of_make {found : Table k.Row}
    (h : Table.make k.Row sizes data start rowCount = .ok found) :
    found = ⟨sizes, data, start, rowCount⟩ ∧ start + rowCount * k.rowSize sizes ≤ data.size := by
  have hmake : Table.make k.Row sizes data start rowCount
      = if start + rowCount * k.rowSize sizes ≤ data.size then
          .ok ⟨sizes, data, start, rowCount⟩ else .error .outOfBounds := rfl
  rw [hmake] at h
  split at h
  · exact ⟨(Except.ok.inj h).symm, ‹_›⟩
  · cases h

/-- A look-up in a table does what the reader does where the row stands. -/
theorem get_eq_reader (hfirst : 1 ≤ number) (hlast : number ≤ rowCount) :
    (⟨sizes, data, start, rowCount⟩ : Table k.Row).get number
      = (k.reader sizes data number (start + (number - 1) * k.rowSize sizes)).map (·.1) := by
  have hget : (⟨sizes, data, start, rowCount⟩ : Table k.Row).get number
      = Cells.read sizes data k.table.columns (start + (number - 1) * k.rowSize sizes) >>=
          fun cells => pure (TableRow.ofCells number cells) := if_pos ⟨hfirst, hlast⟩
  rw [hget, k.takesColumns sizes data number]
  cases Cells.read sizes data k.table.columns (start + (number - 1) * k.rowSize sizes) <;> rfl

end RowKind

/-- **Readers follow the columns, in every block and in every table.** Whatever the sizes are, a
reader that has all bytes of its row in front of it takes these and no others. So a row of a table
is read from its own bytes alone, and what stands behind them, the next row or nothing, makes no
difference; the row is refused for a stray tag only. -/
theorem readers_follow_columns (k : RowKind) (sizes : TableSizes) (data : ByteArray) :
    (∀ number offset, offset + k.rowSize sizes ≤ data.size →
      k.ReadsRow sizes data number offset) ∧
    ∀ start rowCount found, Table.make k.Row sizes data start rowCount = .ok found →
      ∀ number, 1 ≤ number → number ≤ rowCount →
        let place := start + (number - 1) * k.rowSize sizes
        found.get number = (k.reader sizes data number place).map (·.1) ∧
        found.get number
          = (k.reader sizes (Bytes.block data place (k.rowSize sizes)) number 0).map (·.1) ∧
        ∀ e, found.get number = .error e →
          e = .outOfBounds ∧ StrayTag sizes data k.table.columns place := by
  refine ⟨fun number offset h => RowKind.readsRow h, ?_⟩
  intro start rowCount found hmake number hfirst hlast place
  obtain ⟨rfl, hfits⟩ := RowKind.inside_of_make hmake
  have hrow : (number - 1) * k.rowSize sizes + k.rowSize sizes ≤ rowCount * k.rowSize sizes := by
    rw [← Nat.succ_mul]
    exact Nat.mul_le_mul_right _ (by omega)
  have hreads : k.ReadsRow sizes data number place := RowKind.readsRow (by omega)
  have hget : (⟨sizes, data, start, rowCount⟩ : Table k.Row).get number
      = (k.reader sizes data number place).map (·.1) := RowKind.get_eq_reader hfirst hlast
  refine ⟨hget, ?_, fun e he => ?_⟩
  · rw [hget, hreads.own_bytes]
    cases k.reader sizes (Bytes.block data place (k.rowSize sizes)) number 0 <;> rfl
  · rw [hget] at he
    refine (hreads.error_iff e).1 ?_
    cases hreader : k.reader sizes data number place with
    | ok r =>
      rw [hreader] at he
      cases he
    | error e' =>
      rw [hreader] at he
      exact congrArg _ (Except.error.inj he)

/-- So many parameters that a reference to whatever has attributes takes four bytes, while one to a
constructor takes two. -/
def manyParameters : TableSizes := .only .param 2048

/-- Two attributes of the second method. The constructor of the other one has no table. -/
def attributeRows : ByteArray := Bytes.ofList
  [0x40, 0, 0, 0, 0x0B, 0, 7, 0, 0x40, 0, 0, 0, 0x0F, 0, 7, 0]

/-- The first attribute is read to its end and the second one is refused; a method, whose row has no
coded column, is read from any bytes. -/
theorem readers_follow_columns_attributes :
    0 + RowKind.customAttribute.rowSize manyParameters ≤ attributeRows.size ∧
    RowKind.customAttribute.reader manyParameters attributeRows 1 0
      = .ok (⟨1, ⟨.methodDef, 2⟩, ⟨.memberRef, 1⟩, 7⟩, 8) ∧
    (∃ found, Table.make CustomAttributeRow manyParameters attributeRows 0 2 = .ok found ∧
      found.get 2 = .error .outOfBounds ∧
      StrayTag manyParameters attributeRows TableId.customAttribute.columns 8) ∧
    2 + RowKind.methodDef.rowSize manyParameters ≤ attributeRows.size ∧
    ∃ row, RowKind.methodDef.reader manyParameters attributeRows 1 2 = .ok (row, 16) := by
  have hfirst : 0 + RowKind.customAttribute.rowSize manyParameters ≤ attributeRows.size := by
    decide
  have hmethod : 2 + RowKind.methodDef.rowSize manyParameters ≤ attributeRows.size := by decide
  refine ⟨hfirst, ?_, ⟨_, rfl, rfl, ?_⟩, hmethod, ?_⟩
  · rfl
  · exact ((readers_follow_columns .customAttribute manyParameters attributeRows).2 0 2 _ rfl 2
      (by decide) (by decide)).2.2 .outOfBounds rfl |>.2
  · refine ((readers_follow_columns .methodDef manyParameters attributeRows).1 1 2 hmethod).plain ?_
    intro kind hkind
    simp [RowKind.table, TableRow.table, TableId.columns] at hkind

end InteropTables
