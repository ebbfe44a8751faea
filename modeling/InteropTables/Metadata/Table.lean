import InteropTables.Metadata.Row

/-!
# Tables

A table is a run of rows of one size inside a block of bytes. Rows count from one.

* `Table`: the place and the number of the rows;
* `Table.make`: a table, if the block holds all its rows;
* `Table.get`: one row; `Table.rows`: all of them in order;
* `Table.next?`, `Table.announced`: a walk over the rows, which counts in words of four bytes;
  `Table.firstRows`: what it gives first;
* `Table.get_eq_error_of_not_mem`: only the rows `1` to `rowCount` exist;
* `Table.length_rows`, `Table.getElem?_rows`: the list of rows is exact.
-/

namespace InteropTables

/-- The rows of one table. -/
structure Table (ρ : Type) where
  sizes : TableSizes
  /-- The block that the rows stand in. -/
  data : ByteArray
  /-- The place of the first row. -/
  start : Nat
  rowCount : Nat

namespace Table

variable {ρ : Type} [TableRow ρ]

/-- The bytes of a row. -/
def rowSize (t : Table ρ) : Nat :=
  t.sizes.rowSize (TableRow.table ρ)

/-- The bytes of the whole table. -/
def size (t : Table ρ) : Nat :=
  t.rowCount * t.rowSize

/-- The table of `rowCount` rows from `start` on, if the block holds them all. -/
def make (ρ : Type) [TableRow ρ] (sizes : TableSizes) (data : ByteArray) (start rowCount : Nat) :
    Except Fault (Table ρ) :=
  if start + rowCount * sizes.rowSize (TableRow.table ρ) ≤ data.size then
    .ok ⟨sizes, data, start, rowCount⟩
  else .error .outOfBounds

/-- The row with a given number. -/
def get (t : Table ρ) (number : Nat) : Except Fault ρ := do
  if 1 ≤ number ∧ number ≤ t.rowCount then
    let cells ← Cells.read t.sizes t.data (TableRow.table ρ).columns
      (t.start + (number - 1) * t.rowSize)
    return TableRow.ofCells number cells
  else
    throw .outOfBounds

/-- The row that a walk comes to, as far as it can be read, and the number of the row behind it. The
number is a word of four bytes, and starts over behind the largest one. -/
def next? (t : Table ρ) (current : UInt32) : Option (Except Fault ρ × UInt32) :=
  if t.rowCount < current.toNat then none
  else some (t.get current.toNat, current + 1)

/-- How many rows a walk announces, counted in the same words. -/
def announced (t : Table ρ) (current : UInt32) : Nat :=
  (UInt32.ofNat t.rowCount + 1).toNat - current.toNat

/-- What a walk gives from a row on, `limit` rows at most. -/
def walk (t : Table ρ) : (limit : Nat) → (current : UInt32) → List (Except Fault ρ)
  | 0, _ => []
  | limit + 1, current =>
    match t.next? current with
    | none => []
    | some (row, following) => row :: t.walk limit following

/-- What a walk over the table gives, `limit` rows at most. -/
def firstRows (t : Table ρ) (limit : Nat) : List (Except Fault ρ) :=
  t.walk limit 1

/-- All rows in order. -/
def rows (t : Table ρ) : List (Except Fault ρ) :=
  (List.range t.rowCount).map fun i => t.get (i + 1)

/-- All rows in order, if each of them can be read. -/
def allRows (t : Table ρ) : Except Fault (List ρ) :=
  t.rows.mapM id

theorem get_eq_error_of_not_mem {t : Table ρ} {number : Nat}
    (h : ¬ (1 ≤ number ∧ number ≤ t.rowCount)) : t.get number = .error .outOfBounds := by
  simp only [get, if_neg h]
  rfl

@[simp] theorem length_rows (t : Table ρ) : t.rows.length = t.rowCount := by
  simp [rows]

theorem getElem?_rows (t : Table ρ) {i : Nat} (h : i < t.rowCount) :
    t.rows[i]? = some (t.get (i + 1)) := by
  simp [rows, h]

end Table

end InteropTables
