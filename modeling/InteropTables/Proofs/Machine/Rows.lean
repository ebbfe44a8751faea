import InteropTables.Proofs.Machine.Tables

/-!
# Rows on a machine of words

A table of the machine is the block that starts with its rows. A row is found by a product of its
place and the size of a row; coded columns are taken apart by masks and shifts. A loop over all
rows counts them in a word of four bytes, one beyond the last row.

* `Tables.table`, `Rows.get`: a table and one of its rows; `Rows.Shows`: it shows a table of the
  library;
* `decodeCoded_follows`, `Rows.get_follows`: **rows are read as the library reads them**;
* `Rows.fold`, `Rows.visit`, `Rows.collect`: the loops over all rows;
* `Rows.fold_follows`, `Rows.visit_follows`: **a loop follows when its step does.**
-/

namespace InteropTables

namespace Machine

variable {ρ σ τ β : Type}

/-! ## 1. Cells -/

/-- The reference that the number in a coded column stands for. -/
def decodeCoded (k : CodedKind) (value : Nat) : Run CodedIndex := do
  let bits ← tagBits k
  let span ← shiftLeft 4 1 bits
  let mask ← sub span 1
  match k.targets[value &&& mask]? with
  | none => .fail .outOfBounds
  | some table => return ⟨table, ← shiftRight 4 value bits⟩

/-- **A coded column is taken apart as the library does it.** -/
theorem decodeCoded_follows (k : CodedKind) (value : Nat) :
    Follows Eq (decodeCoded k value) (k.decode value) := by
  have hbits := k.tagBits_le
  have hspan : 1 <<< k.tagBits % wordCount 4 = k.tagSpan := by cases k <;> rfl
  have hpower : k.tagSpan = 2 ^ k.tagBits := Nat.one_shiftLeft _
  have hmask : value &&& (k.tagSpan - 1) = value % k.tagSpan := by
    rw [hpower, Nat.and_two_pow_sub_one_eq_mod]
  have hshift : value >>> k.tagBits = value / k.tagSpan := by
    rw [hpower, Nat.shiftRight_eq_div_pow]
  rw [decodeCoded, CodedKind.decode, tagBits_eq, Run.pure_then, shiftLeft_of_lt (by omega), hspan,
    Run.pure_then, sub_of_le k.tagSpan_pos, Run.pure_then, hmask]
  cases k.targets[value % k.tagSpan]? with
  | none => exact follows_fail _
  | some table =>
    dsimp only
    rw [shiftRight_of_lt (by omega), Run.pure_then, hshift]
    exact follows_pure rfl

/-- The content of a column, given the number in it. -/
def cellOf : (c : Column) → Nat → Run c.Cell
  | .word16, n => pure n
  | .word32, n => pure n
  | .text, n => pure n
  | .guid, n => pure n
  | .blob, n => pure n
  | .index _, n => pure n
  | .coded k, n => decodeCoded k n

theorem cellOf_follows (c : Column) (n : Nat) : Follows Eq (cellOf c n) (c.cellOf n) := by
  cases c with
  | coded k => exact decodeCoded_follows k n
  | _ => exact follows_pure rfl

/-- The cells of a row, and the place behind it. -/
def readCells (info : SizeInfo) (data : ByteArray) :
    (columns : List Column) → (offset : Nat) → Run (Cells columns × Nat)
  | [], offset => pure ((), offset)
  | c :: cs, offset => do
    let (n, offset) ← readAt data (← columnBytes info c) offset
    let cell ← cellOf c n
    let (cells, offset) ← readCells info data cs offset
    return ((cell, cells), offset)

/-- A row in what stands behind a place is a row of the whole block. -/
theorem readCells_follows {info : SizeInfo} {s : TableSizes} {data : ByteArray} {start : Nat}
    (hinfo : info.Shows s) (hdata : data.size < wordCount 8) (hstart : start ≤ data.size)
    (columns : List Column) (offset : Nat) :
    Follows (fun a cells => a.1 = cells)
      (readCells info (data.extract start data.size) columns offset)
      (Cells.read s data columns (start + offset)) := by
  induction columns generalizing offset with
  | nil => exact follows_pure rfl
  | cons c cs ih =>
    have hsize : (data.extract start data.size).size = data.size - start := Bytes.size_behind
    rw [readCells, Cells.read, columnBytes_eq hinfo, Run.pure_then]
    by_cases hinside : start + offset + s.width c ≤ data.size
    · rw [readAt_of_le (by omega) (by omega), Bytes.word_of_le hinside, Bytes.number_behind,
        Run.pure_then, bind_ok]
      refine (cellOf_follows c _).bind_eq fun cell _ => ?_
      have hmore := ih (offset + s.width c)
      rw [← Nat.add_assoc] at hmore
      refine hmore.bind fun a cells _ ha => ?_
      subst ha
      exact follows_pure rfl
    · rw [readAt_of_lt (by omega), Bytes.word_of_lt (by omega)]
      exact follows_fail _

/-! ## 2. Tables -/

/-- A table: the block that starts with its rows, and what is needed to find them. -/
structure Rows (ρ : Type) where
  data : ByteArray
  rowCount : Nat
  rowSize : Nat
  info : SizeInfo

/-- The table of `rowCount` rows at the start of a block, if the block holds them all. -/
def Rows.make (ρ : Type) [TableRow ρ] (data : ByteArray) (rowCount : Nat) (info : SizeInfo) :
    Run (Rows ρ) := do
  let rowSize ← Machine.rowSize info (TableRow.table ρ)
  let size ← mul 8 rowCount rowSize
  if data.size < size then .fail .outOfBounds
  else return { data, rowCount, rowSize, info }

/-- The rows of one table, if it has any. -/
def Tables.table (x : Tables) (ρ : Type) [TableRow ρ] : Run (Option (Rows ρ)) :=
  match x.places[(TableRow.table ρ).number]?.join with
  | none => pure none
  | some (start, rowCount) => do
    let made ← (Rows.make ρ (← behind x.data start) rowCount x.info).attempt
    return made.toOption

/-- The row with a given number. -/
def Rows.get [TableRow ρ] (x : Rows ρ) (number : Nat) : Run ρ :=
  if number = 0 ∨ x.rowCount < number then .fail .outOfBounds
  else do
    let before ← sub number 1
    let offset ← mul 8 before x.rowSize
    let (cells, _) ← readCells x.info x.data (TableRow.table ρ).columns offset
    return TableRow.ofCells number cells

/-- The block is what stands behind the first row of a table of the library, which lies inside its
own block. -/
structure Rows.Shows [TableRow ρ] (x : Rows ρ) (t : Table ρ) : Prop where
  data : x.data = t.data.extract t.start t.data.size
  rowCount : x.rowCount = t.rowCount
  rowSize : x.rowSize = t.rowSize
  info : x.info.Shows t.sizes
  size : t.data.size < wordCount 4
  inside : t.start + t.rowCount * t.rowSize ≤ t.data.size
  nonempty : 0 < t.rowCount

/-- **Tables are found as the library finds them.** -/
theorem Tables.Shows.table {x : Tables} {s : TableStream} (h : x.Shows s) (ρ : Type)
    [TableRow ρ] : ∃ found, x.table ρ = pure found ∧ Option.Rel Rows.Shows found (s.table ρ) := by
  have hplace := h.place (TableRow.table ρ)
  have hsize := h.size
  have hfour := wordCount_four
  have height := wordCount_eight
  rw [Tables.table, TableStream.table, hplace]
  cases hlookup : s.places.lookup (TableRow.table ρ) with
  | none => exact ⟨none, rfl, .none⟩
  | some start =>
    have hinside := h.inside _ start hlookup
    have hbehind : (s.data.extract start s.data.size).size = s.data.size - start :=
      Bytes.size_behind
    refine ⟨some ⟨s.data.extract start s.data.size, s.rows (TableRow.table ρ),
      s.sizes.rowSize (TableRow.table ρ), x.info⟩, ?_, ?_⟩
    · show (behind x.data start >>= fun rest => _) = _
      rw [h.data, behind_of_le (by omega), Run.pure_then, Rows.make, rowSize_eq h.info,
        Run.pure_then, mul_of_lt (by omega), Run.pure_then, if_neg (by omega)]
      rfl
    · have hmake : Table.make ρ s.sizes s.data start (s.rows (TableRow.table ρ))
          = .ok ⟨s.sizes, s.data, start, s.rows (TableRow.table ρ)⟩ := if_pos hinside
      show Option.Rel Rows.Shows _
        (Table.make ρ s.sizes s.data start (s.rows (TableRow.table ρ))).toOption
      rw [hmake]
      exact .some ⟨rfl, rfl, rfl, h.info, hsize, hinside, h.nonempty _ start hlookup⟩

namespace Rows

variable [TableRow ρ] {x : Rows ρ} {t : Table ρ}

theorem Shows.rowCount_lt (h : x.Shows t) : t.rowCount + 1 < wordCount 4 := by
  have hfour := wordCount_four
  have hsize := h.size
  have hinside := h.inside
  have htwo := Nat.mul_le_mul_left t.rowCount (two_le_rowSize t.sizes (TableRow.table ρ))
  have hrow : t.rowSize = t.sizes.rowSize (TableRow.table ρ) := rfl
  rw [hrow] at hinside
  omega

/-- **A row is read as the library reads it.** -/
theorem get_follows (h : x.Shows t) (number : Nat) : Follows Eq (x.get number) (t.get number) := by
  have hfour := wordCount_four
  have height := wordCount_eight
  have hsize := h.size
  have hinside := h.inside
  rw [get, Table.get, h.rowCount]
  by_cases hnone : number = 0 ∨ t.rowCount < number
  · rw [if_pos hnone, if_neg (by omega)]
    exact follows_fail _
  · have hbefore : (number - 1) * t.rowSize ≤ t.rowCount * t.rowSize :=
      Nat.mul_le_mul_right _ (by omega)
    rw [if_neg hnone, if_pos (by omega), sub_of_le (by omega), Run.pure_then, h.rowSize,
      mul_of_lt (by omega), Run.pure_then, h.data]
    have hword : t.data.size < wordCount 8 := by omega
    have hstart : t.start ≤ t.data.size := by omega
    refine (readCells_follows h.info hword hstart _ _).bind fun a cells _ ha => ?_
    subst ha
    exact follows_pure rfl

end Rows

/-! ## 3. Loops over all rows -/

/-- The row that a loop comes to, as far as it can be read, and the number of the next one. -/
def Rows.next [TableRow ρ] (x : Rows ρ) (current : Nat) : Run (Option (Except Fault ρ × Nat)) :=
  if x.rowCount < current then return none
  else do
    let row ← (x.get current).attempt
    return some (row, ← add 4 current 1)

/-- The loop over the rows from `current` on. -/
def Rows.foldFrom [TableRow ρ] (x : Rows ρ) (step : σ → Except Fault ρ → Run σ) :
    (fuel current : Nat) → (state : σ) → Run σ
  | 0, _, _ => .trap .endless
  | fuel + 1, current, state => do
    match ← x.next current with
    | none => return state
    | some (row, following) => foldFrom x step fuel following (← step state row)

/-- The loop over all rows. -/
def Rows.fold [TableRow ρ] (x : Rows ρ) (step : σ → Except Fault ρ → Run σ) (state : σ) : Run σ :=
  x.foldFrom step (x.rowCount + 1) 1 state

/-- The results for all rows in order, whether a row can be read or not. -/
def Rows.visit [TableRow ρ] (x : Rows ρ) (f : Except Fault ρ → Run β) : Run (List β) := do
  let found ← x.fold (fun found row => do return (← f row) :: found) []
  return found.reverse

/-- The results for all rows in order, collected behind a guess at their number. -/
def Rows.collect [TableRow ρ] (x : Rows ρ) (f : ρ → Run β) : Run (List β) := do
  let _ ← add 4 x.rowCount 1
  x.visit fun row => do f (← Run.of row)

namespace Rows

variable [TableRow ρ] {x : Rows ρ} {t : Table ρ}

/-- The number of the next row is a number of four bytes, for the last row, too. -/
theorem next_eq (h : x.Shows t) {current : Nat} (hcurrent : current ≤ t.rowCount) :
    x.next current = pure (some (t.get current, current + 1)) := by
  have hcount := h.rowCount_lt
  rw [next, h.rowCount, if_neg (by omega), (get_follows h current).attempt, Run.pure_then,
    add_of_lt (by omega)]
  rfl

theorem foldFrom_follows {Q : σ → τ → Prop} {step : σ → Except Fault ρ → Run σ}
    {g : τ → Except Fault ρ → Except Fault τ} (h : x.Shows t)
    (hstep : ∀ row a b, Q a b → Follows Q (step a row) (g b row)) (fuel first remaining : Nat)
    (hfuel : remaining < fuel) (hcount : first + remaining = t.rowCount) {a : σ} {b : τ}
    (hab : Q a b) :
    Follows Q (x.foldFrom step fuel (first + 1) a)
      (((List.range' first remaining).map fun i => t.get (i + 1)).foldlM g b) := by
  induction fuel generalizing first remaining a b with
  | zero => omega
  | succ fuel ih =>
    rw [foldFrom]
    cases remaining with
    | zero =>
      have hnext : x.next (first + 1) = pure none := by
        rw [next, h.rowCount, if_pos (by omega)]
      rw [hnext]
      exact follows_pure hab
    | succ remaining =>
      rw [next_eq h (by omega), Run.pure_then, List.range'_succ, List.map_cons, List.foldlM_cons]
      refine (hstep (t.get (first + 1)) a b hab).bind fun a' b' _ hab' => ?_
      exact ih (first + 1) remaining (by omega) (by omega) hab'

/-- **A loop over all rows follows when its step does.** -/
theorem fold_follows {Q : σ → τ → Prop} {step : σ → Except Fault ρ → Run σ}
    {g : τ → Except Fault ρ → Except Fault τ} (h : x.Shows t)
    (hstep : ∀ row a b, Q a b → Follows Q (step a row) (g b row)) {a : σ} {b : τ} (hab : Q a b) :
    Follows Q (x.fold step a) (t.rows.foldlM g b) := by
  rw [fold, Table.rows, List.range_eq_range', h.rowCount]
  exact foldFrom_follows h hstep (t.rowCount + 1) 0 t.rowCount (by omega) (by omega) hab

/-- **Rows are visited as the library visits them.** -/
theorem visit_follows {f : Except Fault ρ → Run β} {g : Except Fault ρ → Except Fault β}
    (h : x.Shows t) (hf : ∀ row, Follows Eq (f row) (g row)) :
    Follows Eq (x.visit f) (t.rows.mapM g) := by
  have hstep : ∀ row (a b : List β), a = b →
      Follows Eq (do return (← f row) :: a) ((· :: b) <$> g row) := by
    intro row a b hab
    subst hab
    exact (hf row).map_eq _
  rw [visit, List.mapM_eq_reverse_foldlM_cons, map_eq_pure_bind]
  exact (fold_follows h hstep rfl).bind_eq fun found _ => follows_pure rfl

theorem collect_follows {f : ρ → Run β} {g : ρ → Except Fault β} (h : x.Shows t)
    (hf : ∀ row, Follows Eq (f row) (g row)) :
    Follows Eq (x.collect f) (t.rows.mapM fun row => do g (← row)) := by
  rw [collect, h.rowCount, add_of_lt h.rowCount_lt, Run.pure_then]
  exact visit_follows h fun row => (follows_of row).bind_eq fun r _ => hf r

theorem collect_rows_follows (h : x.Shows t) : Follows Eq (x.collect pure) t.allRows := by
  have hrows : t.allRows = t.rows.mapM fun row => row >>= pure := by
    simp only [bind_pure]
    rfl
  rw [hrows]
  exact collect_follows h fun row => follows_pure rfl

end Rows

end Machine

end InteropTables
