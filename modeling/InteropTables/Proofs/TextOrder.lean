import InteropTables.Proofs.Heaps
import Mathlib.Data.String.Basic

/-!
# The order of texts

Texts are ordered by their characters. Their bytes give the same order: a character that comes later
has a greater first byte, or the same number of bytes, of which the first that differs is greater.

* `sixBits`: a number as a lead byte and bytes of six bits each;
* `utf8EncodeChar_eq_sixBits`: **the bytes of a character, in this form**;
* `utf8EncodeChar_lt`: a later character has later bytes, whatever follows;
* `BytesBefore`, `compare_eq_lt_iff`: **the order of texts is the order of their bytes.**
-/

namespace InteropTables

/-! ## 1. Numbers in groups of six bits -/

/-- A number as a lead byte, which counts from `base`, and so many more bytes of six bits each. -/
def sixBits (base : Nat) : (more : Nat) → Nat → List UInt8
  | 0, n => [UInt8.ofNat (n + base)]
  | more + 1, n => sixBits base more (n / 64) ++ [UInt8.ofNat (n % 64 + 128)]

/-- What the lead byte holds of a number. -/
def leadBits : (more : Nat) → Nat → Nat
  | 0, n => n
  | more + 1, n => leadBits more (n / 64)

theorem ofNat_lt_ofNat {m n : Nat} (h : m < n) (hn : n < 256) : UInt8.ofNat m < UInt8.ofNat n := by
  rw [UInt8.lt_iff_toNat_lt, UInt8.toNat_ofNat', UInt8.toNat_ofNat',
    Nat.mod_eq_of_lt (Nat.lt_trans h hn), Nat.mod_eq_of_lt hn]
  exact h

theorem sixBits_head (base : Nat) :
    ∀ more n, ∃ tail, sixBits base more n = UInt8.ofNat (leadBits more n + base) :: tail
  | 0, _ => ⟨[], rfl⟩
  | more + 1, n => by
    obtain ⟨tail, htail⟩ := sixBits_head base more (n / 64)
    exact ⟨tail ++ [UInt8.ofNat (n % 64 + 128)], by rw [sixBits, htail]; rfl⟩

/-- A greater number of equally many bytes has later bytes. Either the bytes in front are those of a
greater number, or they are the same and the last byte is greater. -/
theorem sixBits_lt {base : Nat} :
    ∀ {more m n : Nat}, m < n → leadBits more n + base < 256 → ∀ x y : List UInt8,
      sixBits base more m ++ x < sixBits base more n ++ y
  | 0, m, n, hlt, hfit, x, y => by
    have hlead : m + base < n + base := Nat.add_lt_add_right hlt base
    exact List.cons_lt_cons_iff.2 (.inl (ofNat_lt_ofNat hlead hfit))
  | more + 1, m, n, hlt, hfit, x, y => by
    simp only [sixBits, List.append_assoc]
    rcases Nat.lt_or_ge (m / 64) (n / 64) with hfront | hfront
    · exact sixBits_lt hfront hfit _ _
    · have hsame : m / 64 = n / 64 := Nat.le_antisymm (by omega) hfront
      have hlast : m % 64 + 128 < n % 64 + 128 := by omega
      rw [hsame]
      exact List.append_left_lt
        (List.cons_lt_cons_iff.2 (.inl (ofNat_lt_ofNat hlast (by omega))))

/-! ## 2. Characters -/

/-- How many bytes follow the lead byte of a character. -/
def moreBytes (n : Nat) : Nat :=
  if n ≤ 0x7F then 0 else if n ≤ 0x7FF then 1 else if n ≤ 0xFFFF then 2 else 3

/-- Where the lead bytes of characters begin that so many bytes follow. -/
def leadBase : (more : Nat) → Nat
  | 0 => 0
  | 1 => 0xC0
  | 2 => 0xE0
  | _ => 0xF0

theorem val_lt (c : Char) : c.val.toNat < 0x110000 := by
  rcases c.valid with hsmall | hlarge
  · exact Nat.lt_trans hsmall (by decide)
  · exact hlarge.2

/-- The bytes of a character are its number in groups of six bits. -/
theorem utf8EncodeChar_eq_sixBits (c : Char) :
    String.utf8EncodeChar c
      = sixBits (leadBase (moreBytes c.val.toNat)) (moreBytes c.val.toNat) c.val.toNat := by
  have hmax := val_lt c
  simp only [String.utf8EncodeChar, moreBytes]
  generalize c.val.toNat = n at hmax
  split
  · rfl
  · split
    · have hlead : n / 64 % 32 = n / 64 := by omega
      simp only [sixBits, leadBase, hlead, List.cons_append, List.nil_append]
    · split
      · have hlead : n / 4096 % 16 = n / 64 / 64 := by omega
        simp only [sixBits, leadBase, hlead, List.cons_append, List.nil_append]
      · have hlead : n / 262144 % 8 = n / 64 / 64 / 64 := by omega
        have hnext : n / 4096 % 64 = n / 64 / 64 % 64 := by omega
        simp only [sixBits, leadBase, hlead, hnext, List.cons_append, List.nil_append]

theorem utf8EncodeChar_head (c : Char) :
    ∃ tail, String.utf8EncodeChar c = UInt8.ofNat (leadBits (moreBytes c.val.toNat) c.val.toNat
      + leadBase (moreBytes c.val.toNat)) :: tail := by
  rw [utf8EncodeChar_eq_sixBits]
  exact sixBits_head ..

theorem moreBytes_cases (n : Nat) :
    moreBytes n = 0 ∧ n ≤ 0x7F ∨ moreBytes n = 1 ∧ 0x7F < n ∧ n ≤ 0x7FF ∨
    moreBytes n = 2 ∧ 0x7FF < n ∧ n ≤ 0xFFFF ∨ moreBytes n = 3 ∧ 0xFFFF < n := by
  unfold moreBytes
  split
  · omega
  · split
    · omega
    · split <;> omega

/-- Lead bytes rise with the number of bytes that follow them, and are bytes. -/
theorem lead_rises {m n : Nat} (hlt : m < n) (hmax : n < 0x110000) :
    leadBits (moreBytes n) n + leadBase (moreBytes n) < 256 ∧
    (moreBytes m = moreBytes n ∨
      leadBits (moreBytes m) m + leadBase (moreBytes m)
        < leadBits (moreBytes n) n + leadBase (moreBytes n)) := by
  rcases moreBytes_cases m with ⟨hm, hm'⟩ | ⟨hm, hm'⟩ | ⟨hm, hm'⟩ | ⟨hm, hm'⟩ <;>
    rcases moreBytes_cases n with ⟨hn, hn'⟩ | ⟨hn, hn'⟩ | ⟨hn, hn'⟩ | ⟨hn, hn'⟩ <;>
    simp only [hm, hn, leadBits, leadBase, true_or, and_true] <;> omega

/-- **A later character has later bytes**, whatever follows. -/
theorem utf8EncodeChar_lt {c d : Char} (h : c < d) (x y : List UInt8) :
    String.utf8EncodeChar c ++ x < String.utf8EncodeChar d ++ y := by
  have hlt : c.val.toNat < d.val.toNat := h
  obtain ⟨hfit, hmore | hlead⟩ := lead_rises hlt (val_lt d)
  · rw [utf8EncodeChar_eq_sixBits, utf8EncodeChar_eq_sixBits, hmore]
    exact sixBits_lt hlt hfit x y
  · obtain ⟨behind, hc⟩ := utf8EncodeChar_head c
    obtain ⟨behind', hd⟩ := utf8EncodeChar_head d
    rw [hc, hd]
    exact List.cons_lt_cons_iff.2 (.inl (ofNat_lt_ofNat hlead hfit))

/-! ## 3. Texts -/

/-- The bytes of a text come before those of another. -/
def BytesBefore (s t : String) : Prop :=
  textBytes s < textBytes t

theorem flatMap_utf8EncodeChar_lt {l l' : List Char} (h : l < l') :
    l.flatMap String.utf8EncodeChar < l'.flatMap String.utf8EncodeChar := by
  induction h with
  | nil =>
    rename_i c l
    obtain ⟨behind, hc⟩ := utf8EncodeChar_head c
    rw [List.flatMap_cons, hc]
    exact List.nil_lt_cons ..
  | rel hlt => exact utf8EncodeChar_lt hlt _ _
  | cons _ ih => exact List.append_left_lt ih

/-- **The order of texts is the order of their bytes.** Of two different texts one comes first, and
its bytes do too. -/
theorem compare_eq_lt_iff {s t : String} : compare s t = .lt ↔ BytesBefore s t := by
  have hforth : ∀ {s t : String}, compare s t = .lt → BytesBefore s t := fun h =>
    flatMap_utf8EncodeChar_lt (String.lt_iff_toList_lt.1 (compare_lt_iff_lt.1 h))
  refine ⟨hforth, fun h => ?_⟩
  cases hcompare : compare s t with
  | lt => rfl
  | eq =>
    rw [compare_eq_iff_eq.1 hcompare] at h
    exact absurd h (List.lt_irrefl _)
  | gt =>
    have hback : BytesBefore t s := hforth (Std.OrientedCmp.gt_iff_lt.1 hcompare)
    exact absurd h (List.lt_asymm hback)

theorem not_bytesBefore_of_isLE {s t : String} (h : (compare s t).isLE) : ¬ BytesBefore t s := by
  intro hbefore
  rw [← compare_eq_lt_iff, ← Std.OrientedCmp.gt_iff_lt] at hbefore
  rw [hbefore] at h
  cases h

theorem bytesBefore_of_ne {s t : String} (h : (compare s t).isLE) (hne : s ≠ t) :
    BytesBefore s t := by
  rw [← compare_eq_lt_iff]
  cases hcompare : compare s t with
  | lt => rfl
  | eq => exact absurd (compare_eq_iff_eq.1 hcompare) hne
  | gt =>
    rw [hcompare] at h
    cases h

end InteropTables
