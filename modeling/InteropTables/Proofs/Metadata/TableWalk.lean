import InteropTables.Metadata.Table

/-!
# Walks over the rows of a table

A walk keeps the number of the row that comes next in a word of four bytes, and both this number and
the sum from which it announces the rows go one beyond the last row. So a walk is exact as long as
there is a word for the number of rows and one more. In a table with the largest number of rows that
a word holds, the walk starts over behind the last row, and never ends.

* `Table.numberAfter`, `Table.given`: where a walk is after some calls, and what a call gives;
* `toNat_numberAfter`: **the number of the next row, as long as it has a word**;
* `Table.WalksExactly`: every row once and in order, then nothing more, as announced at every call;
* `walksExactly_of_lt`: a walk that has a word for every number is exact;
* `walk_exact_iff`: **exactly these walks are**, and what the others do;
* `full_table_starts_over`: a table with the largest number of rows.
-/

namespace InteropTables

namespace Table

variable {ρ : Type} [TableRow ρ]

/-! ## 1. Calls -/

/-- The number of the row that a walk comes to after some calls. -/
def numberAfter (t : Table ρ) : (calls : Nat) → UInt32
  | 0 => 1
  | calls + 1 =>
    match t.next? (t.numberAfter calls) with
    | none => t.numberAfter calls
    | some (_, following) => following

/-- What a walk gives when it is called after some calls. -/
def given (t : Table ρ) (calls : Nat) : Option (Except Fault ρ) :=
  (t.next? (t.numberAfter calls)).map (·.1)

variable {t : Table ρ} {calls : Nat}

theorem next?_of_le {current : UInt32} (h : current.toNat ≤ t.rowCount) :
    t.next? current = some (t.get current.toNat, current + 1) :=
  if_neg (Nat.not_lt.2 h)

theorem next?_of_lt {current : UInt32} (h : t.rowCount < current.toNat) :
    t.next? current = none :=
  if_pos h

/-- A call that gives a row moves on by one. -/
theorem numberAfter_succ_of_le (h : (t.numberAfter calls).toNat ≤ t.rowCount) :
    t.numberAfter (calls + 1) = t.numberAfter calls + 1 := by
  rw [numberAfter, next?_of_le h]

/-- A call that gives nothing leaves the walk where it is. -/
theorem numberAfter_succ_of_lt (h : t.rowCount < (t.numberAfter calls).toNat) :
    t.numberAfter (calls + 1) = t.numberAfter calls := by
  rw [numberAfter, next?_of_lt h]

/-- One number further in words of four bytes. -/
theorem toNat_add_one (n : UInt32) : (n + 1).toNat = (n.toNat + 1) % wordCount 4 :=
  UInt32.toNat_add n 1

/-! ## 2. A word for every number -/

/-- **The number of the next row, as long as it has a word.** It grows with every call up to the
number behind the last row. -/
theorem toNat_numberAfter (h : t.rowCount + 1 < wordCount 4) (calls : Nat) :
    (t.numberAfter calls).toNat = min calls t.rowCount + 1 := by
  induction calls with
  | zero => rw [Nat.zero_min]; rfl
  | succ calls ih =>
    by_cases hmore : calls < t.rowCount
    · have hnext : (t.numberAfter calls).toNat = calls + 1 := by
        rw [ih, Nat.min_eq_left (Nat.le_of_lt hmore)]
      rw [numberAfter_succ_of_le (by omega), toNat_add_one, hnext, Nat.mod_eq_of_lt (by omega),
        Nat.min_eq_left hmore]
    · have hlast : (t.numberAfter calls).toNat = t.rowCount + 1 := by
        rw [ih, Nat.min_eq_right (Nat.not_lt.1 hmore)]
      rw [numberAfter_succ_of_lt (by omega), hlast, Nat.min_eq_right (by omega)]

omit [TableRow ρ] in
theorem toNat_ofNat_add_one (h : t.rowCount + 1 < wordCount 4) :
    (UInt32.ofNat t.rowCount + 1).toNat = t.rowCount + 1 := by
  rw [toNat_add_one, UInt32.toNat_ofNat_of_lt' (Nat.lt_of_succ_lt h), Nat.mod_eq_of_lt h]

/-- Every row is given once, in order, then nothing more; before every call the rows that are still
to come are announced; and no sum goes beyond its word. -/
structure WalksExactly (t : Table ρ) : Prop where
  given : ∀ calls, t.given calls = if calls < t.rowCount then some (t.get (calls + 1)) else none
  announced : ∀ calls, t.announced (t.numberAfter calls) = t.rowCount - calls
  count_fits : t.rowCount + 1 < wordCount 4
  number_fits : ∀ calls < t.rowCount, (t.numberAfter calls).toNat + 1 < wordCount 4

/-- **A walk that has a word for every number is exact.** -/
theorem walksExactly_of_lt (h : t.rowCount + 1 < wordCount 4) : t.WalksExactly where
  given calls := by
    have hnumber := toNat_numberAfter h calls
    by_cases hmore : calls < t.rowCount
    · rw [Nat.min_eq_left (Nat.le_of_lt hmore)] at hnumber
      rw [if_pos hmore, given, next?_of_le (by omega), hnumber]
      rfl
    · rw [Nat.min_eq_right (Nat.not_lt.1 hmore)] at hnumber
      rw [if_neg hmore, given, next?_of_lt (by omega)]
      rfl
  announced calls := by
    rw [Table.announced, toNat_ofNat_add_one h, toNat_numberAfter h]
    omega
  count_fits := h
  number_fits calls hmore := by
    rw [toNat_numberAfter h]
    omega

/-- What a walk gives from a row on is the rows from there. -/
theorem walk_eq (h : t.rowCount + 1 < wordCount 4) (limit first : Nat)
    (hfirst : first ≤ t.rowCount) :
    t.walk limit (UInt32.ofNat (first + 1)) = (t.rows.drop first).take limit := by
  induction limit generalizing first with
  | zero => rw [walk, List.take_zero]
  | succ limit ih =>
    have hword : (UInt32.ofNat (first + 1)).toNat = first + 1 :=
      UInt32.toNat_ofNat_of_lt' (Nat.lt_of_le_of_lt (Nat.succ_le_succ hfirst) h)
    by_cases hmore : first < t.rowCount
    · have hfollowing : UInt32.ofNat (first + 1) + 1 = UInt32.ofNat (first + 1 + 1) :=
        (UInt32.ofNat_add _ _).symm
      have hrow : t.rows.drop first = t.get (first + 1) :: t.rows.drop (first + 1) := by
        have hlength : first < t.rows.length := by rwa [length_rows]
        rw [List.drop_eq_getElem_cons hlength]
        congr 1
        exact List.getElem_eq_iff hlength |>.2 (getElem?_rows t hmore)
      rw [walk, next?_of_le (by omega), hword, hrow, List.take_succ_cons, hfollowing]
      exact congrArg _ (ih (first + 1) hmore)
    · have hend : t.rows.drop first = [] := by
        rw [List.drop_eq_nil_iff, length_rows]
        exact Nat.not_lt.1 hmore
      rw [walk, next?_of_lt (by omega), hend, List.take_nil]

/-- So a walk gives the rows of the table. -/
theorem firstRows_eq_take (h : t.rowCount + 1 < wordCount 4) (limit : Nat) :
    t.firstRows limit = t.rows.take limit :=
  walk_eq h limit 0 (Nat.zero_le _)

/-! ## 3. No word behind the last row -/

/-- With no word behind that of the last row, the walk starts over. -/
theorem toNat_numberAfter_full (h : t.rowCount + 1 = wordCount 4) (calls : Nat) :
    (t.numberAfter calls).toNat = (calls + 1) % wordCount 4 := by
  induction calls with
  | zero => rfl
  | succ calls ih =>
    have hword : (t.numberAfter calls).toNat < wordCount 4 := UInt32.toNat_lt _
    rw [numberAfter_succ_of_le (by omega), toNat_add_one, ih, Nat.mod_add_mod]

/-- It gives a row or a failure at every call, and never ends. -/
theorem given_full (h : t.rowCount + 1 = wordCount 4) (calls : Nat) :
    t.given calls = some (t.get ((calls + 1) % wordCount 4)) := by
  have hnumber := toNat_numberAfter_full h calls
  have hword : (t.numberAfter calls).toNat < wordCount 4 := UInt32.toNat_lt _
  rw [given, next?_of_le (by omega), hnumber]
  rfl

omit [TableRow ρ] in
/-- It announces nothing, though all rows are still to come. -/
theorem announced_full (h : t.rowCount + 1 = wordCount 4) (current : UInt32) :
    t.announced current = 0 := by
  have hword : t.rowCount < wordCount 4 := h ▸ Nat.lt_succ_self _
  have hsum : (UInt32.ofNat t.rowCount + 1).toNat = 0 := by
    rw [toNat_add_one, UInt32.toNat_ofNat_of_lt' hword, h, Nat.mod_self]
  rw [announced, hsum, Nat.zero_sub]

/-! ## 4. All tables -/

/-- **A walk is exact exactly if there is a word for the number of rows and one more.**

Of all tables that are made with a row count of four bytes, those with less than the largest count
are walked exactly: the rows `1` to `rowCount` once each and in order, then nothing more, as
announced before every call, with no sum beyond its word. In a table with the largest count the walk
announces nothing, gives every row in its place, then the failure for row zero, and starts over. -/
theorem walk_exact_iff {sizes : TableSizes} {data : ByteArray} {start rowCount : Nat} {t : Table ρ}
    (hmake : make ρ sizes data start rowCount = .ok t) (hcount : rowCount < wordCount 4) :
    t.rowCount = rowCount ∧ (t.WalksExactly ↔ rowCount + 1 < wordCount 4) ∧
    (rowCount + 1 < wordCount 4 → ∀ limit, t.firstRows limit = t.rows.take limit) ∧
    (rowCount + 1 = wordCount 4 →
      (∀ calls, t.announced (t.numberAfter calls) = 0) ∧
      ∀ calls, t.given calls = some (t.get ((calls + 1) % wordCount 4))) := by
  obtain rfl : t.rowCount = rowCount := by
    unfold make at hmake
    split at hmake
    · obtain rfl := Except.ok.inj hmake
      rfl
    · cases hmake
  refine ⟨rfl, ⟨fun h => h.count_fits, walksExactly_of_lt⟩, firstRows_eq_take, fun h => ?_⟩
  exact ⟨fun calls => announced_full h _, given_full h⟩

/-- Sizes with nothing but a count of two method pointers. -/
def pointerSizes : TableSizes :=
  TableSizes.ofCounts [(TableId.methodPtr.number, 2)] 0

/-- Two method pointers of two bytes each. -/
theorem walk_exact_iff_two_rows : ∃ t, make MethodPtrRow pointerSizes ⟨#[3, 0, 1, 0]⟩ 0 2 = .ok t ∧
    2 < wordCount 4 ∧ t.WalksExactly ∧ t.firstRows 5 = t.rows := by
  have hmake : make MethodPtrRow pointerSizes ⟨#[3, 0, 1, 0]⟩ 0 2 =
      .ok ⟨pointerSizes, ⟨#[3, 0, 1, 0]⟩, 0, 2⟩ := if_pos (by decide +kernel)
  obtain ⟨hrows, hexact, hfirst, -⟩ := walk_exact_iff hmake (by decide)
  refine ⟨_, hmake, by decide, hexact.2 (by decide), ?_⟩
  rw [hfirst (by decide)]
  exact List.take_of_length_le (by rw [length_rows]; decide)

/-- **A table with the largest number of rows.** Zeros that are long enough are admitted as a table
of so many method pointers. A walk over it announces nothing and starts over. -/
theorem full_table_starts_over : ∃ t : Table MethodPtrRow,
    make MethodPtrRow pointerSizes ⟨Array.replicate 8589934590 0⟩ 0 4294967295 = .ok t ∧
    t.announced (t.numberAfter 0) = 0 ∧
    t.given 4294967295 = some (.error .outOfBounds) ∧
    t.given 4294967296 = some (t.get 1) ∧ ¬ t.WalksExactly := by
  have hsize : (⟨Array.replicate 8589934590 0⟩ : ByteArray).size = 8589934590 :=
    Array.size_replicate
  have hrow : pointerSizes.rowSize (TableRow.table MethodPtrRow) = 2 := by decide +kernel
  refine ⟨⟨pointerSizes, ⟨Array.replicate 8589934590 0⟩, 0, 4294967295⟩, ?_, ?_, ?_, ?_, ?_⟩
  · rw [make, hsize, hrow]
    rfl
  · exact announced_full rfl _
  · rw [given_full rfl]
    exact congrArg some (get_eq_error_of_not_mem (by decide))
  · exact given_full rfl _
  · exact fun h => absurd h.count_fits (Nat.lt_irrefl _)

end Table

end InteropTables
