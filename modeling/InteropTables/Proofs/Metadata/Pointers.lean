import InteropTables.Proofs.Metadata.OtherRows
import InteropTables.Proofs.Metadata.Rows

/-!
# A stream with one more table

No column refers to the table of pointers to methods. So whether a module has it or not, no row
changes its size; the tables behind it only stand further back.

* `TableSizes.AgreeBut`, `AgreeBut.rowSize_eq`: sizes that differ in the number of pointers alone;
* `TableSizes.AgreeBut.offsetOf_eq`: **how far the other tables move**;
* `TableHeader.withPointers`, `TableHeader.insertPointers`: a header that announces pointers, and
  the rows with them among the others;
* `Pointed`, `Pointed.sameRows`: **all other tables have the same rows**;
* `Pointed.get_pointer`: **and the pointers are read back.**
-/

namespace InteropTables

/-! ## 1. Sizes -/

/-- No column refers to a row of the table of pointers. -/
theorem TableId.not_pointer_column (t : TableId) : ∀ c ∈ t.columns, c ≠ .index .methodPtr := by
  cases t <;> decide

theorem CodedKind.not_pointer_target (k : CodedKind) : TableId.methodPtr ∉ k.targets := by
  cases k <;> decide

namespace TableSizes

/-- Sizes that differ at most in the number of pointers to methods. -/
structure AgreeBut (s s' : TableSizes) : Prop where
  announced : ∀ t, t ≠ .methodPtr → s'.announced t = s.announced t
  wideText : s'.wideText = s.wideText
  wideGuids : s'.wideGuids = s.wideGuids
  wideBlobs : s'.wideBlobs = s.wideBlobs

namespace AgreeBut

variable {s s' : TableSizes} (h : s.AgreeBut s')

include h

theorem rows_eq {t : TableId} (ht : t ≠ .methodPtr) : s'.rows t = s.rows t := by
  rw [rows, rows, h.announced t ht]

theorem codedBits_eq (k : CodedKind) : s'.codedBits k = s.codedBits k := by
  have hbits : k.targets.map s'.bits = k.targets.map s.bits := by
    refine List.map_congr_left fun t ht => ?_
    have hne : t ≠ .methodPtr := fun e => k.not_pointer_target (e ▸ ht)
    rw [bits, bits, h.announced t hne]
  rw [codedBits, codedBits, hbits]

theorem width_eq {c : Column} (hc : c ≠ .index .methodPtr) : s'.width c = s.width c := by
  cases c with
  | word16 => rfl
  | word32 => rfl
  | text => exact congrArg widthOf h.wideText
  | guid => exact congrArg widthOf h.wideGuids
  | blob => exact congrArg widthOf h.wideBlobs
  | index t =>
    have ht : t ≠ .methodPtr := fun e => hc (e ▸ rfl)
    show widthOf (s'.isWide t) = widthOf (s.isWide t)
    rw [isWide, isWide, h.rows_eq ht]
  | coded k =>
    show widthOf _ = widthOf _
    rw [h.codedBits_eq]

theorem widthSum_eq {columns : List Column} (hcolumns : ∀ c ∈ columns, c ≠ .index .methodPtr) :
    s'.widthSum columns = s.widthSum columns := by
  induction columns with
  | nil => rfl
  | cons c columns ih =>
    obtain ⟨hc, hcolumns⟩ := List.forall_mem_cons.1 hcolumns
    show s'.width c + s'.widthSum columns = s.width c + s.widthSum columns
    rw [h.width_eq hc, ih hcolumns]

/-- **No row changes its size.** -/
theorem rowSize_eq (t : TableId) : s'.rowSize t = s.rowSize t :=
  h.widthSum_eq t.not_pointer_column

theorem tableBytes_eq {t : TableId} (ht : t ≠ .methodPtr) : s'.tableBytes t = s.tableBytes t := by
  rw [tableBytes, tableBytes, h.rows_eq ht, h.rowSize_eq]

/-- Each mention of the table of pointers counts for its bytes. -/
theorem span_eq (hnone : s.rows .methodPtr = 0) (ts : List TableId) :
    s'.span ts = s.span ts + ts.count .methodPtr * s'.tableBytes .methodPtr := by
  induction ts with
  | nil => simp
  | cons t ts ih =>
    rw [span_cons, span_cons, ih]
    by_cases ht : t = .methodPtr
    · subst ht
      rw [List.count_cons_self, tableBytes_of_rows_eq_zero hnone, Nat.succ_mul]
      omega
    · rw [List.count_cons_of_ne ht, h.tableBytes_eq ht]
      omega

/-- **The tables behind the pointers move by the bytes of these**, and the others stay. -/
theorem offsetOf_eq (hnone : s.rows .methodPtr = 0) (t : TableId) :
    s'.offsetOf t = s.offsetOf t
      + if TableId.methodPtr.number < t.number then s'.tableBytes .methodPtr else 0 := by
  have hcount : (TableId.all.take t.number).count .methodPtr
      = if TableId.methodPtr.number < t.number then 1 else 0 := by
    cases t <;> decide
  rw [offsetOf, offsetOf, h.span_eq hnone, hcount]
  split <;> simp

theorem read_eq {columns : List Column} (hcolumns : ∀ c ∈ columns, c ≠ .index .methodPtr)
    (data : ByteArray) : ∀ offset,
      Cells.read s' data columns offset = Cells.read s data columns offset := by
  induction columns with
  | nil => exact fun _ => rfl
  | cons c columns ih =>
    intro offset
    obtain ⟨hc, hcolumns⟩ := List.forall_mem_cons.1 hcolumns
    rw [Cells.read, Cells.read, h.width_eq hc, ih hcolumns]

end AgreeBut

end TableSizes

/-! ## 2. Bytes -/

namespace TableHeader

/-- The header that announces so many pointers to methods besides all else. -/
def withPointers (h : TableHeader) (count : Nat) : TableHeader :=
  { h with
    valid := h.valid ||| 0x20
    counts := fun n => if n = TableId.methodPtr.number then .ofNat count else h.counts n }

/-- The bytes of pointers to methods. -/
def pointerBytes (h : TableHeader) (pointers : List Nat) : List UInt8 :=
  pointers.flatMap (ofNatLE (h.sizes.width (.index .methodDef)))

/-- The rows of all tables with pointers among them, behind the tables with smaller numbers. -/
def insertPointers (h : TableHeader) (body : List UInt8) (pointers : List Nat) : List UInt8 :=
  body.take (h.sizes.offsetOf .methodPtr) ++
    (h.pointerBytes pointers ++ body.drop (h.sizes.offsetOf .methodPtr))

theorem length_pointerBytes (h : TableHeader) (pointers : List Nat) :
    (h.pointerBytes pointers).length = pointers.length * h.sizes.width (.index .methodDef) :=
  length_flatMap_block fun _ _ => length_ofNatLE ..

/-- The stream that a header and the rows behind it make. -/
def laid (h : TableHeader) (extra body : List UInt8) : TableStream :=
  h.stream (Bytes.ofList (h.bytes ++ (extra ++ body))) (h.bytes.length + h.extraSize)

theorem read_laid {h : TableHeader} {extra body : List UInt8} (hvalid : h.valid ≠ 0)
    (hextra : extra.length = h.extraSize) (hfits : h.sizes.span TableId.all ≤ body.length) :
    TableStream.read (Bytes.ofList (h.bytes ++ (extra ++ body))) = .ok (h.laid extra body) := by
  have hread := h.read_header hvalid (extra ++ body) (by
    rw [List.length_append, hextra]
    exact Nat.le_add_right ..)
  refine hread.trans (if_pos ?_)
  show _ ≤ (h.bytes ++ (extra ++ body)).length
  rw [List.length_append, List.length_append, hextra]
  omega

/-- The vector of valid tables with one bit more. -/
theorem testBit_withPointers (h : TableHeader) (count n : Nat) :
    (h.withPointers count).valid.toNat.testBit n
      = (h.valid.toNat.testBit n || decide (TableId.methodPtr.number = n)) := by
  have hbit : (0x20 : UInt64).toNat = 2 ^ TableId.methodPtr.number := by decide
  show (h.valid ||| 0x20).toNat.testBit n = _
  rw [UInt64.toNat_or, Nat.testBit_or, hbit, Nat.testBit_two_pow]

theorem agreeBut_withPointers (h : TableHeader) (count : Nat) :
    h.sizes.AgreeBut (h.withPointers count).sizes := by
  refine ⟨fun t ht => ?_, rfl, rfl, rfl⟩
  have hnumber : TableId.methodPtr.number ≠ t.number := by
    intro heq
    have hsame := TableId.ofNumber?_number t
    rw [← heq, TableId.ofNumber?_number] at hsame
    exact ht (Option.some.inj hsame).symm
  show (if (h.withPointers count).valid.toNat.testBit t.number then
      some ((h.withPointers count).counts t.number).toNat else none) = _
  rw [testBit_withPointers, decide_eq_false hnumber, Bool.or_false]
  show (if _ then some (if t.number = _ then UInt32.ofNat count else h.counts t.number).toNat
    else none) = _
  rw [if_neg (Ne.symm hnumber)]
  rfl

theorem rows_withPointers (h : TableHeader) {count : Nat} (hcount : count < wordCount 4) :
    (h.withPointers count).sizes.rows .methodPtr = count := by
  show ((if (h.withPointers count).valid.toNat.testBit TableId.methodPtr.number then
      some (UInt32.ofNat count).toNat else none : Option Nat)).getD 0 = _
  rw [testBit_withPointers, decide_eq_true rfl, Bool.or_true, if_pos rfl, Option.getD_some]
  exact UInt32.toNat_ofNat_of_lt' hcount

end TableHeader

/-! ## 3. A stream without pointers, and with them -/

open TableStream

/-- A header without pointers to methods and the bytes behind it, and the entries of a table of
pointers that could be put among them. -/
structure Pointed (h : TableHeader) (extra body : List UInt8) (pointers : List Nat) : Prop where
  valid_ne : h.valid ≠ 0
  unannounced : h.valid.toNat.testBit TableId.methodPtr.number = false
  extra_length : extra.length = h.extraSize
  fits : h.sizes.span TableId.all ≤ body.length
  count_lt : pointers.length < wordCount 4
  entries_lt : ∀ p ∈ pointers, p < wordCount (h.sizes.width (.index .methodDef))

namespace Pointed

variable {h : TableHeader} {extra body : List UInt8} {pointers : List Nat}

/-- The stream with the pointers. -/
def stream (h : TableHeader) (extra body : List UInt8) (pointers : List Nat) : TableStream :=
  (h.withPointers pointers.length).laid extra (h.insertPointers body pointers)

/-- The bytes of the stream with the pointers. -/
def bytes (h : TableHeader) (extra body : List UInt8) (pointers : List Nat) : List UInt8 :=
  (h.withPointers pointers.length).bytes ++ (extra ++ h.insertPointers body pointers)

section

variable (hp : Pointed h extra body pointers)

include hp

theorem rows_none : h.sizes.rows .methodPtr = 0 := by
  show ((if h.valid.toNat.testBit TableId.methodPtr.number then _ else none : Option Nat)).getD 0
    = 0
  rw [hp.unannounced]
  rfl

theorem tableBytes_eq : (h.withPointers pointers.length).sizes.tableBytes .methodPtr
    = (h.pointerBytes pointers).length := by
  rw [TableSizes.tableBytes, h.rows_withPointers hp.count_lt,
    (h.agreeBut_withPointers _).rowSize_eq, h.length_pointerBytes]
  rfl

theorem cut_le : h.sizes.offsetOf .methodPtr ≤ body.length :=
  Nat.le_trans (Nat.le_trans (Nat.le_add_right ..) (h.sizes.offsetOf_add_le .methodPtr)) hp.fits

theorem fits_stream : (h.withPointers pointers.length).sizes.span TableId.all
    ≤ (h.insertPointers body pointers).length := by
  have hcount : TableId.all.count .methodPtr = 1 := by decide
  have hcut := hp.cut_le
  have hfits := hp.fits
  rw [(h.agreeBut_withPointers _).span_eq hp.rows_none, hcount, Nat.one_mul, hp.tableBytes_eq,
    TableHeader.insertPointers, List.length_append, List.length_append, List.length_take,
    List.length_drop]
  omega

theorem read_stream :
    TableStream.read (Bytes.ofList (bytes h extra body pointers))
      = .ok (stream h extra body pointers) := by
  refine TableHeader.read_laid (fun hzero => ?_) hp.extra_length hp.fits_stream
  have hbit := h.testBit_withPointers pointers.length TableId.methodPtr.number
  rw [hzero, decide_eq_true rfl, Bool.or_true] at hbit
  cases hbit

/-- The rows of the tables in front of the pointers stay where they are, and those of the tables
behind them move as far as their table does. -/
theorem rowBlock_eq {t : TableId} (ht : t ≠ .methodPtr) {number : Nat} (hfirst : 1 ≤ number)
    (hlast : number ≤ h.sizes.rows t) :
    (h.withPointers pointers.length).rowBlock (h.insertPointers body pointers) t number
      = h.rowBlock body t number := by
  have hagree := h.agreeBut_withPointers pointers.length
  have hrow : (number - 1) * h.sizes.rowSize t + h.sizes.rowSize t ≤ h.sizes.tableBytes t := by
    rw [← Nat.succ_mul, TableSizes.tableBytes]
    exact Nat.mul_le_mul_right _ (by omega)
  have hcut := hp.cut_le
  rw [TableHeader.rowBlock, TableHeader.rowBlock, hagree.rowSize_eq,
    hagree.offsetOf_eq hp.rows_none, hp.tableBytes_eq, TableHeader.insertPointers]
  rcases Nat.lt_trichotomy t.number TableId.methodPtr.number with hlt | heq | hlt
  · have hfront := h.sizes.offsetOf_add_le_of_lt hlt
    rw [if_neg (by omega), Nat.add_zero, List.drop_append_of_le_length (by
      rw [List.length_take]; omega), List.take_append_of_le_length (by
      rw [List.length_drop, List.length_take]; omega), List.drop_take, List.take_take,
      Nat.min_eq_left (by omega)]
  · have hsame := TableId.ofNumber?_number t
    rw [heq, TableId.ofNumber?_number] at hsame
    exact absurd (Option.some.inj hsame).symm ht
  · have hbehind := h.sizes.offsetOf_add_le_of_lt hlt
    have hplace : h.sizes.offsetOf t + (h.pointerBytes pointers).length
          + (number - 1) * h.sizes.rowSize t
        = (body.take (h.sizes.offsetOf .methodPtr) ++ h.pointerBytes pointers).length
          + (h.sizes.offsetOf t - h.sizes.offsetOf .methodPtr
            + (number - 1) * h.sizes.rowSize t) := by
      rw [List.length_append, List.length_take]
      omega
    rw [if_pos hlt, hplace, ← List.append_assoc, List.drop_length_add_append, List.drop_drop]
    congr 2
    omega

/-- **All other tables have the same rows.** -/
theorem sameRows {ρ : Type} [TableRow ρ] (hρ : TableRow.table ρ ≠ .methodPtr) :
    SameRows ρ (h.laid extra body) (stream h extra body pointers) := by
  have hagree := h.agreeBut_withPointers pointers.length
  have htable := h.stream_table hp.extra_length hp.fits ρ
  have htable' := (h.withPointers pointers.length).stream_table hp.extra_length hp.fits_stream ρ
  rw [hagree.rows_eq hρ] at htable'
  by_cases hrows : h.sizes.rows (TableRow.table ρ) = 0
  · exact .inl ⟨htable.trans (if_pos hrows), htable'.trans (if_pos hrows)⟩
  · refine .inr ⟨_, _, htable.trans (if_neg hrows), htable'.trans (if_neg hrows), rfl,
      fun number => ?_⟩
    by_cases hnumber : 1 ≤ number ∧ number ≤ h.sizes.rows (TableRow.table ρ)
    · have hget := h.get_row hp.extra_length hp.fits (ρ := ρ) hnumber.1 hnumber.2
      have hget' := (h.withPointers pointers.length).get_row hp.extra_length hp.fits_stream
        (ρ := ρ) hnumber.1 ((hagree.rows_eq hρ).symm ▸ hnumber.2)
      rw [hp.rowBlock_eq hρ hnumber.1 hnumber.2, hagree.read_eq (TableId.not_pointer_column _),
        hagree.rows_eq hρ, ← hget] at hget'
      exact hget'
    · rw [Table.get_eq_error_of_not_mem hnumber, Table.get_eq_error_of_not_mem hnumber]

/-- No module has pointers before they are put in, nor if there are none to put in. -/
theorem table_none : (h.laid extra body).table MethodPtrRow = none :=
  (h.stream_table hp.extra_length hp.fits MethodPtrRow).trans (if_pos hp.rows_none)

theorem table_nil (hnone : pointers = []) :
    (stream h extra body pointers).table MethodPtrRow = none := by
  refine ((h.withPointers pointers.length).stream_table hp.extra_length hp.fits_stream
    MethodPtrRow).trans (if_pos ?_)
  refine (h.rows_withPointers hp.count_lt).trans ?_
  rw [hnone]
  rfl

omit hp in
theorem rows_stream : (stream h extra body pointers).rows .methodDef
    = (h.laid extra body).rows .methodDef :=
  (h.agreeBut_withPointers _).rows_eq (by decide)

/-- A table of the stream without pointers has the announced rows. -/
theorem rowCount_laid (ρ : Type) [TableRow ρ] :
    ((h.laid extra body).table ρ).elim 0 Table.rowCount = h.sizes.rows (TableRow.table ρ) := by
  have htable : (h.laid extra body).table ρ = _ := h.stream_table hp.extra_length hp.fits ρ
  rw [htable]
  split
  · rename_i hrows
    exact hrows.symm
  · rfl

/-- The block of a pointer is its own number. -/
theorem rowBlock_pointer {i p : Nat} (hi : pointers[i]? = some p) :
    (h.withPointers pointers.length).rowBlock (h.insertPointers body pointers) .methodPtr (i + 1)
      = Cells.bytes (h.withPointers pointers.length).sizes.width TableId.methodPtr.columns (p, ())
      := by
  have hagree := h.agreeBut_withPointers pointers.length
  have hsize : ∀ p ∈ pointers, (ofNatLE (h.sizes.width (.index .methodDef)) p).length
      = h.sizes.width (.index .methodDef) := fun _ _ => length_ofNatLE ..
  have hplace : h.sizes.offsetOf .methodPtr + i * h.sizes.rowSize .methodPtr
      = (body.take (h.sizes.offsetOf .methodPtr)).length
        + i * h.sizes.width (.index .methodDef) := by
    rw [List.length_take, Nat.min_eq_left hp.cut_le]
    rfl
  have hcells : Cells.bytes (h.withPointers pointers.length).sizes.width
      TableId.methodPtr.columns (p, ()) = ofNatLE (h.sizes.width (.index .methodDef)) p := by
    show ofNatLE ((h.withPointers pointers.length).sizes.width (.index .methodDef)) p ++ [] = _
    rw [List.append_nil, hagree.width_eq (by decide)]
  rw [TableHeader.rowBlock, hagree.rowSize_eq, hagree.offsetOf_eq hp.rows_none,
    if_neg (Nat.lt_irrefl _), Nat.add_zero, Nat.add_sub_cancel, TableHeader.insertPointers, hplace,
    List.drop_length_add_append, hcells]
  exact take_drop_flatMap hsize hi _

/-- **The pointers are read back**, if there are any. -/
theorem exists_pointers (hsome : pointers ≠ []) :
    ∃ table, (stream h extra body pointers).table MethodPtrRow = some table ∧
      table.rowCount = pointers.length ∧
      ∀ i p, pointers[i]? = some p → table.get (i + 1) = .ok ⟨i + 1, p⟩ := by
  have hagree := h.agreeBut_withPointers pointers.length
  have hrows := h.rows_withPointers hp.count_lt
  have htable := (h.withPointers pointers.length).stream_table hp.extra_length hp.fits_stream
    MethodPtrRow
  have hcount : (h.withPointers pointers.length).sizes.rows (TableRow.table MethodPtrRow) ≠ 0 := by
    show (h.withPointers pointers.length).sizes.rows .methodPtr ≠ 0
    rw [hrows]
    exact fun hzero => hsome (List.eq_nil_of_length_eq_zero hzero)
  refine ⟨_, htable.trans (if_neg hcount), hrows, fun i p hi => ?_⟩
  obtain ⟨hlt, -⟩ := List.getElem?_eq_some_iff.1 hi
  have hfit : Cells.Fit (h.withPointers pointers.length).sizes.width TableId.methodPtr.columns
      (p, ()) := by
    refine ⟨⟨trivial, ?_⟩, trivial⟩
    rw [hagree.width_eq (c := .index .methodDef) (by decide)]
    exact hp.entries_lt p (List.mem_of_getElem? hi)
  have hcells : Cells.read (h.withPointers pointers.length).sizes
      (Bytes.ofList ((h.withPointers pointers.length).rowBlock (h.insertPointers body pointers)
        .methodPtr (i + 1)))
      TableId.methodPtr.columns 0 = .ok (p, ()) := by
    rw [hp.rowBlock_pointer hi]
    exact Cells.read_bytes _ hfit
  have hlast : i + 1 ≤ (h.withPointers pointers.length).sizes.rows .methodPtr := by
    rw [hrows]
    exact hlt
  have hget := (h.withPointers pointers.length).get_row hp.extra_length hp.fits_stream
    (ρ := MethodPtrRow) (Nat.succ_pos i) hlast
  exact hget.trans (congrArg (Except.map (TableRow.ofCells (ρ := MethodPtrRow) (i + 1))) hcells)

end

end Pointed

end InteropTables
