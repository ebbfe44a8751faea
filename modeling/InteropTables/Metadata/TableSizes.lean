import InteropTables.Metadata.CodedIndex
import InteropTables.Bytes

/-!
# Widths of columns and rows

A column that refers to a heap or to rows takes two bytes as long as every place it may have to
name fits them, else four. So the widths of all columns follow from the row counts and three flags
for the heaps, and the size of a row from the widths of its columns.

* `TableSizes`: the announced row counts and the heap flags;
* `TableSizes.width`, `TableSizes.rowSize`: bytes in a column and in a row;
* `TableSizes.codedBits`: the bits that a coded column must be able to hold;
* `TableSizes.read`: the sizes that a tables stream announces, and where its rows begin;
* `TableSizes.width_cases`: every column takes two or four bytes.
-/

namespace InteropTables

/-- What the header of a tables stream says about sizes. -/
structure TableSizes where
  /-- The row count of a table, if the table is announced at all. -/
  announced : TableId → Option Nat
  /-- Places in the string heap take four bytes. -/
  wideText : Bool
  /-- Places in the heap of unique identifiers take four bytes. -/
  wideGuids : Bool
  /-- Places in the blob heap take four bytes. -/
  wideBlobs : Bool

namespace TableSizes

/-! ## 1. Rows and bits -/

/-- The number of rows of a table. -/
def rows (s : TableSizes) (t : TableId) : Nat :=
  (s.announced t).getD 0

/-- The bits that hold any row number of a table: none for a table that is not announced, and at
least one for every other. -/
def bits (s : TableSizes) (t : TableId) : Nat :=
  match s.announced t with
  | none => 0
  | some n => n.log2 + 1

/-- Whether row numbers of a table take four bytes. -/
def isWide (s : TableSizes) (t : TableId) : Bool :=
  wordCount 2 ≤ s.rows t

/-- The bits that a coded column must hold: those for the largest row number of its tables, and
its tag. -/
def codedBits (s : TableSizes) (k : CodedKind) : Nat :=
  (k.targets.map s.bits).foldl max 0 + k.tagBits

/-! ## 2. Widths -/

/-- Four bytes or two. -/
def widthOf (wide : Bool) : Nat :=
  if wide then 4 else 2

/-- The bytes of a coded column. -/
def codedWidth (s : TableSizes) (k : CodedKind) : Nat :=
  widthOf (16 < s.codedBits k)

/-- The bytes of a column. -/
def width (s : TableSizes) : Column → Nat
  | .word16 => 2
  | .word32 => 4
  | .text => widthOf s.wideText
  | .guid => widthOf s.wideGuids
  | .blob => widthOf s.wideBlobs
  | .index t => widthOf (s.isWide t)
  | .coded k => s.codedWidth k

/-- The bytes of so many columns side by side. -/
def widthSum (s : TableSizes) (columns : List Column) : Nat :=
  columns.foldr (fun c bytes => s.width c + bytes) 0

/-- The bytes of a row. -/
def rowSize (s : TableSizes) (t : TableId) : Nat :=
  s.widthSum t.columns

theorem widthOf_cases (wide : Bool) : widthOf wide = 2 ∨ widthOf wide = 4 := by
  cases wide <;> simp [widthOf]

theorem width_cases (s : TableSizes) (c : Column) : s.width c = 2 ∨ s.width c = 4 := by
  cases c <;> simp only [width, codedWidth, widthOf_cases, true_or, or_true]

/-! ## 3. Reading -/

/-- The place of the first row count in a tables stream. -/
def countsOffset : Nat := 24

/-- The numbers of the announced tables, among them tables of no known kind. -/
def announcedNumbers (valid : Nat) : List Nat :=
  (List.range 64).filter valid.testBit

/-- The announced row counts, each with the number of its table. -/
def readCounts (data : ByteArray) (valid : Nat) : Except Fault (List (Nat × Nat)) :=
  (announcedNumbers valid).zipIdx.mapM fun (number, i) => do
    return (number, ← Bytes.word data 4 (countsOffset + 4 * i))

/-- The sizes for given row counts and the byte of heap flags. -/
def ofCounts (counts : List (Nat × Nat)) (heapFlags : Nat) : TableSizes :=
  let known := (TableId.all.map fun t => counts.lookup t.number).toArray
  { announced := fun t => known[t.number]?.join
    wideText := heapFlags.testBit 0
    wideGuids := heapFlags.testBit 1
    wideBlobs := heapFlags.testBit 2 }

/-- The sizes in a tables stream, given its vector of valid tables and its heap flags, and the
place behind the row counts. Tables of no known kind have counts, too. -/
def read (data : ByteArray) (valid heapFlags : Nat) : Except Fault (TableSizes × Nat) := do
  let counts ← readCounts data valid
  return (ofCounts counts heapFlags, countsOffset + 4 * counts.length)

/-- A table has the count that stands beside its number. -/
theorem announced_ofCounts (counts : List (Nat × Nat)) (heapFlags : Nat) (t : TableId) :
    (ofCounts counts heapFlags).announced t = counts.lookup t.number := by
  cases t <;> rfl

end TableSizes

end InteropTables
