import InteropTables.Metadata.TableSizes

/-!
# Rows as lists of cells

A row is read column by column, so its shape is the list of its columns and nothing else.

* `Column.Cell`, `Cells`: what a column, and a list of columns, holds;
* `Cells.read`: the cells of a row at a place of a block;
* `Cells.read_congr`: only the bytes of the row matter.
-/

namespace InteropTables

/-- What a column holds: a reference with its table where the column is coded, a number in every
other. -/
@[reducible] def Column.Cell : Column → Type
  | .coded _ => CodedIndex
  | _ => Nat

/-- What a list of columns holds. -/
def Cells : List Column → Type
  | [] => Unit
  | c :: cs => c.Cell × Cells cs

/-- The content of a column, given the number in it. -/
def Column.cellOf : (c : Column) → Nat → Except Fault c.Cell
  | .word16, n => .ok n
  | .word32, n => .ok n
  | .text, n => .ok n
  | .guid, n => .ok n
  | .blob, n => .ok n
  | .index _, n => .ok n
  | .coded k, n => k.decode n

namespace Cells

/-- The cells of a row at a place of a block. -/
def read (sizes : TableSizes) (data : ByteArray) :
    (columns : List Column) → (offset : Nat) → Except Fault (Cells columns)
  | [], _ => .ok ()
  | c :: cs, offset => do
    let number ← Bytes.word data (sizes.width c) offset
    let cell ← c.cellOf number
    let cells ← read sizes data cs (offset + sizes.width c)
    return (cell, cells)

/-- **Only the bytes of the row matter.** -/
theorem read_congr {sizes : TableSizes} {data data' : ByteArray} :
    ∀ (columns : List Column) (offset offset' : Nat),
      (∀ i w, i + w ≤ sizes.widthSum columns →
        Bytes.word data w (offset + i) = Bytes.word data' w (offset' + i)) →
      read sizes data columns offset = read sizes data' columns offset'
  | [], _, _, _ => rfl
  | c :: cs, offset, offset', h => by
    have hsum : sizes.widthSum (c :: cs) = sizes.width c + sizes.widthSum cs := rfl
    have hw := h 0 (sizes.width c) (by omega)
    have ih : read sizes data cs (offset + sizes.width c)
        = read sizes data' cs (offset' + sizes.width c) := by
      apply read_congr
      intro i w hi
      have := h (sizes.width c + i) w (by omega)
      rwa [← Nat.add_assoc, ← Nat.add_assoc] at this
    simp only [Nat.add_zero] at hw
    simp only [read, hw, ih]
    rfl

end Cells

end InteropTables
