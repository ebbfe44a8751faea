import InteropTables.Metadata.Table

/-!
# The tables stream

The stream starts with a fixed header, goes on with one row count for each announced table, and
then holds the rows of all tables, table behind table in the order of their numbers.

* `TableStream.read`: the stream in a block of bytes;
* `TableStream.layoutFrom`: the places of all tables with rows;
* `TableStream.table`: the rows of one table, if it has any.
-/

namespace InteropTables

/-- A tables stream. -/
structure TableStream where
  data : ByteArray
  majorVersion : Nat
  minorVersion : Nat
  /-- The vector of valid tables, one bit for each. -/
  valid : Nat
  /-- The vector of sorted tables. -/
  sorted : Nat
  sizes : TableSizes
  /-- The tables with rows, each with the place of its first row. -/
  places : List (TableId × Nat)

namespace TableStream

/-- The size of the fixed header. -/
def headerSize : Nat := 24

/-- The flag for four more bytes between the row counts and the rows. -/
def extraDataBit : Nat := 6

/-- The places of those of the given tables that have rows, from `offset` on, if the rows end
within `limit` bytes. -/
def layoutFrom (sizes : TableSizes) (limit : Nat) :
    List TableId → (offset : Nat) → Except Fault (List (TableId × Nat))
  | [], _ => .ok []
  | t :: ts, offset =>
    if sizes.rows t = 0 then layoutFrom sizes limit ts offset
    else
      let stop := offset + sizes.rows t * sizes.rowSize t
      if stop ≤ limit then
        (layoutFrom sizes limit ts stop).map ((t, offset) :: ·)
      else .error .outOfBounds

/-- The tables stream in a block. -/
def read (data : ByteArray) : Except Fault TableStream := do
  if data.size < headerSize then
    throw .outOfBounds
  let majorVersion ← Bytes.word data 1 4
  let minorVersion ← Bytes.word data 1 5
  let heapFlags ← Bytes.word data 1 6
  let valid ← Bytes.word data 8 8
  let sorted ← Bytes.word data 8 16
  if valid = 0 then
    throw (.malformed .noTables)
  let (sizes, behindCounts) ← TableSizes.read data valid heapFlags
  let start := if heapFlags.testBit extraDataBit then behindCounts + 4 else behindCounts
  let places ← layoutFrom sizes data.size TableId.all start
  return { data, majorVersion, minorVersion, valid, sorted, sizes, places }

/-- The number of rows of a table. -/
def rows (s : TableStream) (t : TableId) : Nat :=
  s.sizes.rows t

/-- The number of announced tables, among them tables of no known kind. -/
def tableCount (s : TableStream) : Nat :=
  (TableSizes.announcedNumbers s.valid).length

/-- The rows of one table, if it has any. -/
def table (s : TableStream) (ρ : Type) [TableRow ρ] : Option (Table ρ) := do
  let start ← s.places.lookup (TableRow.table ρ)
  (Table.make ρ s.sizes s.data start (s.rows (TableRow.table ρ))).toOption

end TableStream

end InteropTables
