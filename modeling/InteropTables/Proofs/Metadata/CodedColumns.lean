import InteropTables.Proofs.Metadata.Rows
import Mathlib.Algebra.Group.Nat.Defs

/-!
# Coded columns, bit by bit

A coded column holds a row number moved up by a few bits and in these the position of a table in a
fixed list. It takes two bytes as long as this leaves room for every row of all these tables. The
library computes with products and remainders and with the bits that the largest table needs; here
the rule is said of the bits themselves and of the row counts.

* `CodedKind.tagBits_le_iff`: the tag has the bits that its positions need, and not one more;
* `CodedKind.encode_eq_or`, `CodedKind.decode_shifted`: a reference is a shifted row beside its tag,
  and is read back from there;
* `TableSizes.encode_lt_of_narrow`: **what a narrow column has to name fits it**;
* `coded_columns_follow_rule`: the rule as a whole.
-/

namespace InteropTables

namespace CodedKind

variable (k : CodedKind)

theorem tagSpan_eq_pow : k.tagSpan = 2 ^ k.tagBits :=
  Nat.one_shiftLeft _

/-- The tag has the bits that its positions need, and not one more. -/
theorem tagBits_le_iff (n : Nat) : k.tagBits ≤ n ↔ k.targets.length ≤ 2 ^ n := by
  constructor
  · intro h
    calc k.targets.length ≤ k.tagSpan := k.length_targets_le
      _ = 2 ^ k.tagBits := k.tagSpan_eq_pow
      _ ≤ 2 ^ n := Nat.pow_le_pow_right (by decide) h
  · intro h
    have hlast : k.targets.length - 1 ≠ 0 := by cases k <;> decide
    have hlog : (k.targets.length - 1).log2 < n := (Nat.log2_lt hlast).2 (by omega)
    exact hlog

theorem tag_lt {k : CodedKind} {tag : Nat} {t : TableId} (h : k.targets[tag]? = some t) :
    tag < 2 ^ k.tagBits := by
  rw [← tagSpan_eq_pow]
  exact Nat.lt_of_lt_of_le (List.getElem?_eq_some_iff.1 h).1 k.length_targets_le

/-- The number for a reference is its row moved up, with the tag below. -/
theorem encode_eq_or {tag : Nat} (h : tag < 2 ^ k.tagBits) (row : Nat) :
    k.encode tag row = row <<< k.tagBits ||| tag := by
  rw [encode, tagSpan_eq_pow, ← Nat.shiftLeft_eq, Nat.shiftLeft_add_eq_or_of_lt h]

/-- A row that leaves the tag its bits gives a number of so many bits. -/
theorem shifted_lt {tag row width : Nat} (htag : tag < 2 ^ k.tagBits) (hbits : k.tagBits ≤ width)
    (hrow : row < 2 ^ (width - k.tagBits)) : row <<< k.tagBits ||| tag < 2 ^ width := by
  refine Nat.or_lt_two_pow ?_ ?_
  · rw [Nat.shiftLeft_eq]
    calc row * 2 ^ k.tagBits < 2 ^ (width - k.tagBits) * 2 ^ k.tagBits :=
          Nat.mul_lt_mul_of_pos_right hrow (Nat.two_pow_pos _)
      _ = 2 ^ width := by rw [← Nat.pow_add, Nat.sub_add_cancel hbits]
  · exact Nat.lt_of_lt_of_le htag (Nat.pow_le_pow_right (by decide) hbits)

/-- **A shifted row beside its tag is read back.** -/
theorem decode_shifted {k : CodedKind} {tag : Nat} {t : TableId} (h : k.targets[tag]? = some t)
    (row : Nat) : k.decode (row <<< k.tagBits ||| tag) = .ok ⟨t, row⟩ := by
  rw [← k.encode_eq_or (tag_lt h)]
  exact k.decode_encode h

/-- A number is no reference exactly if its low bits are no position in the list of tables. -/
theorem decode_eq_error_iff_and (value : Nat) :
    k.decode value = .error .outOfBounds ↔
      k.targets.length ≤ value &&& (2 ^ k.tagBits - 1) := by
  rw [decode_eq_error_iff, Nat.and_two_pow_sub_one_eq_mod, tagSpan_eq_pow]

end CodedKind

namespace TableSizes

variable (s : TableSizes) (k : CodedKind)

/-- The width of a coded column by the bits that its tag leaves to the row. -/
theorem codedWidth_eq_pow :
    s.codedWidth k = if ∀ t ∈ k.targets, s.rows t < 2 ^ (16 - k.tagBits) then 2 else 4 := by
  have hspan : 0x10000 / k.tagSpan = 2 ^ (16 - k.tagBits) := by cases k <;> rfl
  rw [codedWidth_eq, hspan]

/-- **What a narrow column has to name fits it.** -/
theorem encode_lt_of_narrow {s : TableSizes} {k : CodedKind} (hnarrow : s.codedWidth k = 2)
    {tag : Nat} {t : TableId} (ht : k.targets[tag]? = some t) {row : Nat} (hrow : row ≤ s.rows t) :
    row <<< k.tagBits ||| tag < 2 ^ 16 := by
  have hbits := k.tagBits_le
  rw [codedWidth_eq_pow] at hnarrow
  split at hnarrow
  · rename_i hfew
    have hlt := hfew t (List.mem_of_getElem? ht)
    exact k.shifted_lt (CodedKind.tag_lt ht) (by omega) (Nat.lt_of_le_of_lt hrow hlt)
  · cases hnarrow

end TableSizes

/-- **Coded columns follow the rule.** The tag takes no more bits than it needs. A column is narrow
exactly if every row of its tables leaves the tag room in two bytes, a row number is narrow exactly
if it fits two bytes; so whatever a narrow column has to name fits it. And a number is read as the
table at the position in its low bits with the row above them, or as nothing if there is none. -/
theorem coded_columns_follow_rule (k : CodedKind) :
    (∀ n, k.tagBits ≤ n ↔ k.targets.length ≤ 2 ^ n) ∧
    (∀ s : TableSizes,
      s.codedWidth k = (if ∀ t ∈ k.targets, s.rows t < 2 ^ (16 - k.tagBits) then 2 else 4) ∧
      (∀ t, s.isWide t = true ↔ 2 ^ 16 ≤ s.rows t) ∧
      (s.codedWidth k = 2 → ∀ tag t, k.targets[tag]? = some t → ∀ row ≤ s.rows t,
        row <<< k.tagBits ||| tag < 2 ^ 16)) ∧
    (∀ tag t, k.targets[tag]? = some t → ∀ row < 2 ^ (32 - k.tagBits),
      row <<< k.tagBits ||| tag < 2 ^ 32 ∧
      k.decode (row <<< k.tagBits ||| tag) = .ok ⟨t, row⟩) ∧
    ∀ value, k.decode value = .error .outOfBounds ↔
      k.targets.length ≤ value &&& (2 ^ k.tagBits - 1) := by
  refine ⟨k.tagBits_le_iff, fun s => ⟨s.codedWidth_eq_pow k, s.isWide_iff, ?_⟩, ?_,
    k.decode_eq_error_iff_and⟩
  · intro hnarrow tag t ht row hrow
    exact TableSizes.encode_lt_of_narrow hnarrow ht hrow
  · intro tag t ht row hrow
    have hbits := k.tagBits_le
    exact ⟨k.shifted_lt (CodedKind.tag_lt ht) (by omega) hrow, CodedKind.decode_shifted ht row⟩

/-- The sizes of a module with so many rows in one table and none in any other. -/
def TableSizes.only (table : TableId) (count : Nat) : TableSizes where
  announced t := if t = table then some count else none
  wideText := false
  wideGuids := false
  wideBlobs := false

/-- The last parameter that a narrow reference to whatever has attributes can name, at position 4 of
22 tables; one parameter more takes four bytes. -/
theorem coded_columns_at_threshold :
    (TableSizes.only .param 2047).codedWidth .hasCustomAttribute = 2 ∧
    2047 <<< 5 ||| 4 < 2 ^ 16 ∧
    CodedKind.hasCustomAttribute.decode (2047 <<< 5 ||| 4) = .ok ⟨.param, 2047⟩ ∧
    (TableSizes.only .param 2048).codedWidth .hasCustomAttribute = 4 ∧
    CodedKind.hasCustomAttribute.decode (2047 <<< 5 ||| 22) = .error .outOfBounds := by
  obtain ⟨-, hsizes, hdecode, hstray⟩ := coded_columns_follow_rule .hasCustomAttribute
  have hnarrow : (TableSizes.only .param 2047).codedWidth .hasCustomAttribute = 2 := by
    rw [(hsizes _).1]
    decide
  have hfits := (hsizes _).2.2 hnarrow 4 .param rfl 2047 (by decide)
  have hread := (hdecode 4 .param rfl 2047 (by decide)).2
  refine ⟨hnarrow, hfits, hread, ?_, ?_⟩
  · rw [(hsizes _).1]
    decide
  · rw [hstray]
    decide

end InteropTables
