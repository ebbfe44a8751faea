import InteropTables.Text.Hexadecimal

/-!
# Metadata tokens

A token names a row of a metadata table in one 32-bit word: the table number in the top byte, the
row in the 24 bits below it. Rows count from one; row zero is the null reference.

* `Token.ofParts`: the word of a table and a row, of which the low 24 bits are kept;
* `Token.table_ofParts`, `Token.row_ofParts`: the two parts are read back;
* `Token.ofParts_table_row`: every token is the word of its own parts.
-/

namespace InteropTables

/-- A reference to a row of a metadata table. -/
structure Token where
  /-- The 32-bit word as it stands in metadata. -/
  value : UInt32
deriving DecidableEq, Repr, Inhabited, Hashable

namespace Token

/-! ## 1. Parts of the word -/

/-- How many rows a token tells apart: those of 24 bits. -/
def rowSpan : Nat := 0x1000000

/-- The number of the table, the top byte of the word. -/
def table (t : Token) : Nat :=
  t.value.toNat / rowSpan

/-- The one-based row, the low 24 bits of the word. -/
def row (t : Token) : Nat :=
  t.value.toNat % rowSpan

/-- The token of row `row` in table number `table`; the row is cut to 24 bits. -/
def ofParts (table row : Nat) : Token :=
  ⟨UInt32.ofNat (table * rowSpan + row % rowSpan)⟩

/-- A token is null when it names no row. -/
def isNull (t : Token) : Bool :=
  t.row == 0

theorem rowSpan_pos : 0 < rowSpan := by decide

theorem row_lt (t : Token) : t.row < rowSpan :=
  Nat.mod_lt _ rowSpan_pos

theorem value_ofParts {table row : Nat} (h : table < 256) :
    (ofParts table row).value.toNat = table * rowSpan + row % rowSpan := by
  have : row % rowSpan < rowSpan := Nat.mod_lt _ rowSpan_pos
  simp only [ofParts, UInt32.toNat_ofNat', rowSpan] at *
  omega

/-- The table of a token is the one it was made with. -/
theorem table_ofParts {table row : Nat} (h : table < 256) : (ofParts table row).table = table := by
  have : row % rowSpan < rowSpan := Nat.mod_lt _ rowSpan_pos
  rw [Token.table, value_ofParts h]
  simp only [rowSpan] at *
  omega

/-- The row of a token is the one it was made with, cut to 24 bits. -/
theorem row_ofParts {table row : Nat} (h : table < 256) :
    (ofParts table row).row = row % rowSpan := by
  rw [Token.row, value_ofParts h]
  simp only [rowSpan] at *
  omega

/-- **Every token is the word of its own two parts.** -/
theorem ofParts_table_row (t : Token) : ofParts t.table t.row = t := by
  have h := t.row_lt
  cases t with
  | mk v =>
    have hv := v.toNat_lt
    simp only [ofParts, table, row, Nat.mod_mod]
    congr 1
    apply UInt32.toNat_inj.1
    rw [UInt32.toNat_ofNat']
    simp only [rowSpan]
    omega

/-! ## 2. Order and text -/

instance : LE Token := ⟨fun a b => a.value ≤ b.value⟩

instance (a b : Token) : Decidable (a ≤ b) :=
  inferInstanceAs (Decidable (a.value ≤ b.value))

/-- The common way to write a token: eight hexadecimal digits behind `0x`. -/
def display (t : Token) : String :=
  "0x" ++ paddedHex 8 t.value.toNat

/-- The long form for inspection, with both parts spelled out. -/
def inspect (t : Token) : String :=
  "Token(" ++ t.display ++ ", table: 0x" ++ paddedHex 2 t.table ++ ", row: " ++
    toString t.row ++ ")"

end Token

end InteropTables
