import InteropTables.Proofs.Compressed
import Mathlib.Algebra.Group.Nat.Defs

/-!
# The table and the row of a packed type token

A packed type token holds up to 27 bits above its tag, and 24 bits of a token are for the row. The
bits above the tag are laid over the word of the table without a look at their number: those beyond
24 fall into the byte of the table.

* `table_laid`, `row_laid`: both parts of a word with bits laid over a table;
* `apart_laid_iff`: **the parts are the table and these bits exactly if the bits fit a row**;
* `token_of_compressed`: **what is read for every number**;
* `token_crosses_tables`: a number whose row runs into another table.
-/

namespace InteropTables

namespace Reader

/-! ## 1. Words laid over a table -/

theorem typeTables_lt {tag table : Nat} (h : typeTables[tag]? = some table) : table < 2 ^ 8 := by
  match tag, h with
  | 0, h | 1, h | 2, h => cases h; decide

variable {table bits : Nat}

/-- The word of a table with some bits laid over it is a word of 32 bits. -/
theorem toNat_laid (htable : table < 2 ^ 8) (hbits : bits < 2 ^ 32) :
    (UInt32.ofNat (table * Token.rowSpan ||| bits)).toNat = table * Token.rowSpan ||| bits := by
  have hword : table * Token.rowSpan < 2 ^ 32 := by
    rw [Token.rowSpan]
    omega
  exact UInt32.toNat_ofNat_of_lt' (Nat.or_lt_two_pow hword hbits)

/-- The bits beyond a row are laid over the table. -/
theorem table_laid (htable : table < 2 ^ 8) (hbits : bits < 2 ^ 32) :
    Token.table ⟨UInt32.ofNat (table * Token.rowSpan ||| bits)⟩
      = table ||| bits / Token.rowSpan := by
  show (UInt32.ofNat _).toNat / 2 ^ 24 = table ||| bits / 2 ^ 24
  rw [toNat_laid htable hbits, Nat.or_div_two_pow]
  exact congrArg (· ||| _) (Nat.mul_div_cancel table Token.rowSpan_pos)

/-- The row is what 24 bits hold. -/
theorem row_laid (htable : table < 2 ^ 8) (hbits : bits < 2 ^ 32) :
    Token.row ⟨UInt32.ofNat (table * Token.rowSpan ||| bits)⟩ = bits % Token.rowSpan := by
  show (UInt32.ofNat _).toNat % 2 ^ 24 = bits % 2 ^ 24
  rw [toNat_laid htable hbits, Nat.or_mod_two_pow]
  show table * Token.rowSpan % Token.rowSpan ||| _ = _
  rw [Nat.mul_mod_left, Nat.zero_or]

/-- Table and row stay apart exactly if the row fits its 24 bits. -/
theorem apart_laid_iff (htable : table < 2 ^ 8) (hbits : bits < 2 ^ 32) :
    Token.table ⟨UInt32.ofNat (table * Token.rowSpan ||| bits)⟩ = table ∧
      Token.row ⟨UInt32.ofNat (table * Token.rowSpan ||| bits)⟩ = bits ↔
    bits < Token.rowSpan := by
  rw [table_laid htable hbits, row_laid htable hbits]
  constructor
  · rintro ⟨-, hrow⟩
    rw [← hrow]
    exact Nat.mod_lt _ Token.rowSpan_pos
  · intro hfits
    rw [Nat.div_eq_of_lt hfits, Nat.or_zero]
    exact ⟨rfl, Nat.mod_eq_of_lt hfits⟩

/-! ## 2. Reading -/

/-- The bits above a tag are laid over the table of the tag. -/
theorem token_eq_laid {c c' : Cursor} {n : Nat} (h : compressed c = (.ok n, c'))
    (htable : typeTables[n % 4]? = some table) :
    token c = (.ok ⟨UInt32.ofNat (table * Token.rowSpan ||| n / 4)⟩, c') := by
  rw [token, bind_of_ok h, (tokenBase_of_typeTables htable).1]
  rfl

/-- **What is read for every packed number.** The reserved tag is refused. Else there always is a
token: its row is the low 24 bits above the tag, and the bits beyond them are laid over the table of
the tag. So table and row stay apart exactly if the row fits 24 bits. -/
theorem token_of_compressed {c c' : Cursor} {n : Nat} (h : compressed c = (.ok n, c')) :
    n < compressedSpan ∧
    (n % 4 = 3 → token c = (.error (.malformed (.compressedTag n)), c')) ∧
    ∀ table, typeTables[n % 4]? = some table →
      ∃ t, token c = (.ok t, c') ∧
        t.table = table ||| n / 4 / Token.rowSpan ∧ t.row = n / 4 % Token.rowSpan ∧
        (t.table = table ∧ t.row = n / 4 ↔ n / 4 < Token.rowSpan) := by
  have hspan : n < compressedSpan := compressed_lt h
  refine ⟨hspan, fun htag => ?_, fun table htable => ?_⟩
  · rw [token, bind_of_ok h, htag]
    rfl
  · have hsmall : table < 2 ^ 8 := typeTables_lt htable
    have hbits : n / 4 < 2 ^ 32 := by
      rw [compressedSpan] at hspan
      omega
    exact ⟨_, token_eq_laid h htable, table_laid hsmall hbits, row_laid hsmall hbits,
      apart_laid_iff hsmall hbits⟩

/-- The four bytes of the largest row that stays apart from its table, and of the row behind it. -/
theorem token_of_compressed_at_limit :
    compressed ⟨[0xC3, 0xFF, 0xFF, 0xFE], 0, 0⟩ = (.ok 0x3FFFFFE, ⟨[], 4, 0⟩) ∧
    (∃ t, token ⟨[0xC3, 0xFF, 0xFF, 0xFE], 0, 0⟩ = (.ok t, ⟨[], 4, 0⟩) ∧
      t.table = 0x1B ∧ t.row = 0xFFFFFF) ∧
    ∃ t, token ⟨[0xC4, 0, 0, 2], 0, 0⟩ = (.ok t, ⟨[], 4, 0⟩) ∧ t.table = 0x1B ∧ t.row = 0 := by
  have hread : compressed ⟨[0xC3, 0xFF, 0xFF, 0xFE], 0, 0⟩ = (.ok 0x3FFFFFE, ⟨[], 4, 0⟩) := rfl
  have hnext : compressed ⟨[0xC4, 0, 0, 2], 0, 0⟩ = (.ok 0x4000002, ⟨[], 4, 0⟩) := rfl
  obtain ⟨t, ht, -, -, hapart⟩ := (token_of_compressed hread).2.2 0x1B rfl
  obtain ⟨u, hu, htable, hrow, -⟩ := (token_of_compressed hnext).2.2 0x1B rfl
  exact ⟨hread, ⟨t, ht, hapart.2 (by decide)⟩, u, hu, htable, hrow⟩

/-- **Reading does not refuse a row beyond 24 bits.** Definition `0x1000000` is read as the null
token of table 3, which holds no types, and definition `0x2000001` as the first one. -/
theorem token_crosses_tables :
    (∃ t, token ⟨[0xC4, 0, 0, 0], 0, 0⟩ = (.ok t, ⟨[], 4, 0⟩) ∧ t.table = 0x03 ∧ t.row = 0) ∧
    (∃ t, token ⟨[0xC8, 0, 0, 4], 0, 0⟩ = (.ok t, ⟨[], 4, 0⟩) ∧ t.table = 0x02 ∧ t.row = 1) ∧
    ¬ ∀ c c' n, compressed c = (.ok n, c') → n % 4 ≠ 3 →
      (∃ e, token c = (.error e, c')) ∨
      ∃ t, token c = (.ok t, c') ∧ typeTables[n % 4]? = some t.table ∧ t.row = n / 4 := by
  have hread : token ⟨[0xC4, 0, 0, 0], 0, 0⟩ = (.ok ⟨0x03000000⟩, ⟨[], 4, 0⟩) := rfl
  refine ⟨⟨_, hread, rfl, rfl⟩, ⟨⟨0x02000001⟩, rfl, rfl, rfl⟩, fun hall => ?_⟩
  have hnumber : compressed ⟨[0xC4, 0, 0, 0], 0, 0⟩ = (.ok 0x4000000, ⟨[], 4, 0⟩) := rfl
  obtain ⟨e, he⟩ | ⟨t, ht, htable, -⟩ := hall _ _ _ hnumber (by decide)
  · rw [hread] at he
    cases he
  · rw [hread] at ht
    cases ht
    cases htable

end Reader

end InteropTables
