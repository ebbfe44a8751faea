import InteropTables.Fault
import InteropTables.Metadata.Schema

/-!
# Coded row references

A coded column packs the choice of a table into the low bits of the row number.

* `CodedIndex`: a table and a row in it, with the token of the two;
* `CodedKind.decode`, `CodedKind.encode`: from and to the number in the column;
* `CodedKind.decode_encode`: a reference is read back from its number;
* `CodedKind.decode_eq_error_iff`: decoding fails exactly on tags that select no table.
-/

namespace InteropTables

/-- A reference to a row of one of several tables. -/
structure CodedIndex where
  /-- The table that the tag selects. -/
  table : TableId
  /-- The row, `0` for no row. -/
  row : Nat
deriving DecidableEq, Repr

/-- The token of the table and the row; rows beyond 24 bits are cut. -/
def CodedIndex.token (i : CodedIndex) : Token :=
  Token.ofParts i.table.number i.row

namespace CodedKind

/-- The reference that a number stands for. A tag without a table points beyond the tables. -/
def decode (k : CodedKind) (value : Nat) : Except Fault CodedIndex :=
  match k.targets[value % k.tagSpan]? with
  | some table => .ok ⟨table, value / k.tagSpan⟩
  | none => .error .outOfBounds

/-- The number for a row of the table with tag `tag`. -/
def encode (k : CodedKind) (tag row : Nat) : Nat :=
  row * k.tagSpan + tag

/-- **The reference is read back from its number.** -/
theorem decode_encode (k : CodedKind) {tag row : Nat} {table : TableId}
    (h : k.targets[tag]? = some table) : k.decode (k.encode tag row) = .ok ⟨table, row⟩ := by
  have ht : tag < k.tagSpan :=
    Nat.lt_of_lt_of_le (List.getElem?_eq_some_iff.1 h).1 k.length_targets_le
  have hpos : 0 < k.tagSpan := k.tagSpan_pos
  have hm : (row * k.tagSpan + tag) % k.tagSpan = tag := by
    rw [Nat.mul_comm, Nat.mul_add_mod, Nat.mod_eq_of_lt ht]
  have hd : (row * k.tagSpan + tag) / k.tagSpan = row := by
    rw [Nat.mul_comm, Nat.mul_add_div hpos, Nat.div_eq_of_lt ht, Nat.add_zero]
  simp only [decode, encode, hm, hd, h]

theorem decode_eq_error_iff (k : CodedKind) (value : Nat) :
    k.decode value = .error .outOfBounds ↔ k.targets.length ≤ value % k.tagSpan := by
  unfold decode
  split
  · rename_i table h
    have := (List.getElem?_eq_some_iff.1 h).1
    simp only [reduceCtorEq, false_iff]
    omega
  · rename_i h
    simp only [true_iff]
    exact List.getElem?_eq_none_iff.1 h

end CodedKind

end InteropTables
