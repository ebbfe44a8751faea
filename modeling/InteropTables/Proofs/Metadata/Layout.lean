import InteropTables.Proofs.Blocks
import InteropTables.Metadata.TableStream

/-!
# How tables lie in their stream

A tables stream is a header, perhaps four more bytes, and the rows of all tables. The header alone
decides how many bytes the rows take and where each table stands among them.

* `TableHeader`, `TableHeader.bytes`: what a header says, for any vector of tables, any row counts
  and any heap flags, and the bytes for it;
* `TableSizes.span`, `TableSizes.offsetOf`: the bytes of a list of tables, and the place of a table
  behind those in front of it;
* `layoutFrom_eq`: laying out succeeds exactly if the rows fit, and gives the places;
* `read_header`: the header is read back from its bytes;
* `TableHeader.LaidOut`: what an accepted stream looks like;
* `read_stream_iff`: **a stream with enough bytes behind its header is accepted, and every table and
  every row is found where the header puts it; one with fewer bytes is refused.**
-/

namespace InteropTables

/-! ## 1. Bytes of tables -/

namespace TableSizes

/-- The bytes of the rows of a table. -/
def tableBytes (s : TableSizes) (t : TableId) : Nat :=
  s.rows t * s.rowSize t

/-- The bytes of the rows of some tables. -/
def span (s : TableSizes) (ts : List TableId) : Nat :=
  ts.foldr (fun t bytes => s.tableBytes t + bytes) 0

/-- The bytes of the tables in front of a table. -/
def offsetOf (s : TableSizes) (t : TableId) : Nat :=
  s.span (TableId.all.take t.number)

@[simp] theorem span_nil (s : TableSizes) : s.span [] = 0 := rfl

@[simp] theorem span_cons (s : TableSizes) (t : TableId) (ts : List TableId) :
    s.span (t :: ts) = s.tableBytes t + s.span ts := rfl

@[simp] theorem span_append (s : TableSizes) (ts us : List TableId) :
    s.span (ts ++ us) = s.span ts + s.span us := by
  induction ts with
  | nil => simp
  | cons t ts ih => simp [ih, Nat.add_assoc]

theorem tableBytes_of_rows_eq_zero {s : TableSizes} {t : TableId} (h : s.rows t = 0) :
    s.tableBytes t = 0 := by
  rw [tableBytes, h, Nat.zero_mul]

/-- All tables are those in front of a table, the table, and those behind it. -/
theorem all_split (t : TableId) :
    TableId.all = TableId.all.take t.number ++ t :: TableId.all.drop (t.number + 1) := by
  have hget : TableId.all[t.number]? = some t := TableId.ofNumber?_number t
  obtain ⟨hlt, hget⟩ := List.getElem?_eq_some_iff.1 hget
  have hdrop := List.drop_eq_getElem_cons hlt
  rw [hget] at hdrop
  rw [← hdrop, List.take_append_drop]

/-- **Every table ends inside the bytes of all tables.** -/
theorem offsetOf_add_le (s : TableSizes) (t : TableId) :
    s.offsetOf t + s.tableBytes t ≤ s.span TableId.all := by
  have hsplit := congrArg s.span (all_split t)
  rw [span_append, span_cons] at hsplit
  rw [offsetOf]
  omega

/-- **A table begins where the one before it ends.** -/
theorem offsetOf_next (s : TableSizes) {t u : TableId} (h : u.number = t.number + 1) :
    s.offsetOf u = s.offsetOf t + s.tableBytes t := by
  have hget : TableId.all[t.number]? = some t := TableId.ofNumber?_number t
  rw [offsetOf, h, List.take_add_one, hget, span_append]
  rfl

/-- **Tables in the order of their numbers do not meet.** -/
theorem offsetOf_add_le_of_lt (s : TableSizes) {t u : TableId} (h : t.number < u.number) :
    s.offsetOf t + s.tableBytes t ≤ s.offsetOf u := by
  have hget : TableId.all[t.number]? = some t := TableId.ofNumber?_number t
  have htake : TableId.all.take u.number
      = TableId.all.take (t.number + 1) ++ (TableId.all.take u.number).drop (t.number + 1) := by
    have happend := List.take_append_drop (t.number + 1) (TableId.all.take u.number)
    rw [List.take_take, Nat.min_eq_left h] at happend
    exact happend.symm
  have hspan := congrArg s.span htake
  rw [span_append, List.take_add_one, hget, span_append] at hspan
  simp only [Option.toList_some, span_cons, span_nil] at hspan
  rw [offsetOf, offsetOf]
  omega

end TableSizes

namespace TableStream

/-! ## 2. Laying out -/

/-- The places of the tables with rows, one behind the other. -/
def placesFrom (s : TableSizes) : List TableId → (offset : Nat) → List (TableId × Nat)
  | [], _ => []
  | t :: ts, offset =>
    if s.rows t = 0 then placesFrom s ts offset
    else (t, offset) :: placesFrom s ts (offset + s.tableBytes t)

/-- **Laying out succeeds exactly if the rows fit**, from any place inside the limit on. -/
theorem layoutFrom_eq (s : TableSizes) {limit : Nat} (ts : List TableId) {offset : Nat}
    (h : offset ≤ limit) :
    layoutFrom s limit ts offset
      = if offset + s.span ts ≤ limit then .ok (placesFrom s ts offset)
        else .error .outOfBounds := by
  induction ts generalizing offset with
  | nil => simp [layoutFrom, placesFrom, h]
  | cons t ts ih =>
    by_cases hrows : s.rows t = 0
    · simp [layoutFrom, placesFrom, hrows, ih h, TableSizes.tableBytes_of_rows_eq_zero hrows]
    · have hstop : offset + s.rows t * s.rowSize t = offset + s.tableBytes t := rfl
      simp only [layoutFrom, placesFrom, hrows, if_false, hstop, TableSizes.span_cons]
      by_cases hfits : offset + s.tableBytes t ≤ limit
      · rw [if_pos hfits, ih hfits, Nat.add_assoc]
        split <;> rfl
      · rw [if_neg hfits, if_neg (by omega)]

theorem lookup_placesFrom_of_not_mem (s : TableSizes) {t : TableId} (ts : List TableId)
    (offset : Nat) (h : t ∉ ts) : (placesFrom s ts offset).lookup t = none := by
  induction ts generalizing offset with
  | nil => rfl
  | cons u ts ih =>
    rw [List.mem_cons, not_or] at h
    have hu : (t == u) = false := beq_eq_false_iff_ne.2 h.1
    rw [placesFrom]
    split
    · exact ih _ h.2
    · rw [List.lookup_cons, hu]
      exact ih _ h.2

/-- A table with rows stands behind the tables in front of it; a table without rows has no place. -/
theorem lookup_placesFrom (s : TableSizes) {t : TableId} (ts us : List TableId) (offset : Nat)
    (hts : t ∉ ts) (hus : t ∉ us) :
    (placesFrom s (ts ++ t :: us) offset).lookup t
      = if s.rows t = 0 then none else some (offset + s.span ts) := by
  induction ts generalizing offset with
  | nil =>
    rw [List.nil_append, placesFrom]
    split
    · exact lookup_placesFrom_of_not_mem s us offset hus
    · simp
  | cons u ts ih =>
    rw [List.mem_cons, not_or] at hts
    have hu : (t == u) = false := beq_eq_false_iff_ne.2 hts.1
    rw [List.cons_append, placesFrom]
    split
    · rename_i hrows
      rw [ih _ hts.2, TableSizes.span_cons, TableSizes.tableBytes_of_rows_eq_zero hrows,
        Nat.zero_add]
    · rw [List.lookup_cons, hu]
      show (placesFrom s (ts ++ t :: us) _).lookup t = _
      rw [ih _ hts.2, TableSizes.span_cons, Nat.add_assoc]

/-- **The place of every table among all tables.** -/
theorem lookup_placesFrom_all (s : TableSizes) (t : TableId) (offset : Nat) :
    (placesFrom s TableId.all offset).lookup t
      = if s.rows t = 0 then none else some (offset + s.offsetOf t) := by
  have hnodup : TableId.all.Nodup := by
    refine TableId.pairwise_number_all.imp fun {a b} h (e : a = b) => ?_
    exact Nat.lt_irrefl _ (e ▸ h)
  rw [TableSizes.all_split t] at hnodup ⊢
  obtain ⟨_, hbehind, hdisjoint⟩ := List.nodup_append.1 hnodup
  refine lookup_placesFrom s _ _ offset (fun hmem => ?_) (List.nodup_cons.1 hbehind).1
  exact hdisjoint t hmem t (List.mem_cons_self ..) rfl

end TableStream

/-! ## 3. Headers -/

/-- What stands in front of the rows of a tables stream: two words without a meaning, the versions,
the heap flags, the vectors of valid and of sorted tables, and a row count for every number in the
vector of valid tables, known or not. -/
structure TableHeader where
  reserved : UInt32
  majorVersion : UInt8
  minorVersion : UInt8
  heapFlags : UInt8
  filler : UInt8
  valid : UInt64
  sorted : UInt64
  /-- The row count for a table number; it is written only for announced tables. -/
  counts : Nat → UInt32

namespace TableHeader

/-- The numbers of the announced tables. -/
def numbers (h : TableHeader) : List Nat :=
  TableSizes.announcedNumbers h.valid.toNat

/-- The fixed part of a header. -/
def fixedBytes (h : TableHeader) : List UInt8 :=
  ofNatLE 4 h.reserved.toNat ++ ([h.majorVersion, h.minorVersion, h.heapFlags, h.filler] ++
    (ofNatLE 8 h.valid.toNat ++ ofNatLE 8 h.sorted.toNat))

/-- The row counts of a header. -/
def countBytes (h : TableHeader) (numbers : List Nat) : List UInt8 :=
  numbers.flatMap fun n => ofNatLE 4 (h.counts n).toNat

/-- The bytes of a header. -/
def bytes (h : TableHeader) : List UInt8 :=
  h.fixedBytes ++ h.countBytes h.numbers

/-- The number of bytes between the row counts and the rows. -/
def extraSize (h : TableHeader) : Nat :=
  if h.heapFlags.toNat.testBit TableStream.extraDataBit then 4 else 0

/-- The sizes that a header announces. -/
def sizes (h : TableHeader) : TableSizes where
  announced t :=
    if h.valid.toNat.testBit t.number then some (h.counts t.number).toNat else none
  wideText := h.heapFlags.toNat.testBit 0
  wideGuids := h.heapFlags.toNat.testBit 1
  wideBlobs := h.heapFlags.toNat.testBit 2

theorem length_countBytes (h : TableHeader) (numbers : List Nat) :
    (h.countBytes numbers).length = 4 * numbers.length := by
  induction numbers with
  | nil => rfl
  | cons n numbers ih =>
    rw [countBytes, List.flatMap_cons, List.length_append, length_ofNatLE]
    rw [countBytes] at ih
    rw [ih, List.length_cons]
    omega

theorem length_bytes (h : TableHeader) :
    h.bytes.length = TableSizes.countsOffset + 4 * h.numbers.length := by
  rw [bytes, List.length_append, length_countBytes]
  rfl

theorem mem_numbers (h : TableHeader) (t : TableId) :
    t.number ∈ h.numbers ↔ h.valid.toNat.testBit t.number = true := by
  have := t.number_lt
  rw [numbers, TableSizes.announcedNumbers, List.mem_filter, List.mem_range]
  constructor
  · exact fun hmem => hmem.2
  · exact fun hbit => ⟨by omega, hbit⟩

/-! ## 4. Reading a header -/

/-- The induction is on the numbers; in front stands the fixed part with the counts of the numbers
that are done. -/
theorem readCounts_from (h : TableHeader) (behind : List UInt8) (numbers : List Nat) :
    ∀ (done : Nat) (front : List UInt8), front.length = TableSizes.countsOffset + 4 * done →
      ((numbers.zipIdx done).mapM fun (number, i) => do
        return (number, ← Bytes.word (Bytes.ofList (front ++ (h.countBytes numbers ++ behind))) 4
          (TableSizes.countsOffset + 4 * i)))
        = (.ok (numbers.map fun n => (n, (h.counts n).toNat)) : Except Fault _) := by
  induction numbers with
  | nil =>
    intro done front _
    rfl
  | cons n numbers ih =>
    intro done front hfront
    have hcount : (h.counts n).toNat < wordCount 4 := (h.counts n).toNat_lt
    have hword := Bytes.word_append front (ofNatLE 4 (h.counts n).toNat)
      (h.countBytes numbers ++ behind)
    rw [littleEndian_ofNatLE hcount, length_ofNatLE, hfront] at hword
    have hmore := ih (done + 1) (front ++ ofNatLE 4 (h.counts n).toNat) (by
      rw [List.length_append, length_ofNatLE, hfront]
      omega)
    have hbytes : front ++ (h.countBytes (n :: numbers) ++ behind)
        = front ++ (ofNatLE 4 (h.counts n).toNat ++ (h.countBytes numbers ++ behind)) := by
      rw [countBytes, List.flatMap_cons, List.append_assoc]
      rfl
    rw [List.append_assoc] at hmore
    have hfirst : (do
        return (n, ← Bytes.word (Bytes.ofList (front ++ (ofNatLE 4 (h.counts n).toNat ++
          (h.countBytes numbers ++ behind)))) 4 (TableSizes.countsOffset + 4 * done)))
        = (.ok (n, (h.counts n).toNat) : Except Fault _) := by
      rw [hword]
      rfl
    rw [List.zipIdx_cons, hbytes]
    exact mapM_cons_ok _ _ hfirst hmore

/-- **Every row count is read back.** -/
theorem readCounts_bytes (h : TableHeader) (behind : List UInt8) :
    TableSizes.readCounts (Bytes.ofList (h.bytes ++ behind)) h.valid.toNat
      = .ok (h.numbers.map fun n => (n, (h.counts n).toNat)) := by
  have hread := readCounts_from h behind h.numbers 0 h.fixedBytes rfl
  rw [bytes, List.append_assoc]
  exact hread

theorem lookup_counts (h : TableHeader) (n : Nat) (numbers : List Nat) :
    (numbers.map fun n => (n, (h.counts n).toNat)).lookup n
      = if n ∈ numbers then some (h.counts n).toNat else none := by
  induction numbers with
  | nil => rfl
  | cons k numbers ih =>
    rw [List.map_cons, List.lookup_cons]
    by_cases hk : n = k
    · subst hk
      simp
    · have hk' : (n == k) = false := beq_eq_false_iff_ne.2 hk
      rw [hk', ih]
      simp [hk]

/-- The sizes made from the counts are those of the header. -/
theorem ofCounts_counts (h : TableHeader) :
    TableSizes.ofCounts (h.numbers.map fun n => (n, (h.counts n).toNat)) h.heapFlags.toNat
      = h.sizes := by
  have hannounced : (TableSizes.ofCounts (h.numbers.map fun n => (n, (h.counts n).toNat))
      h.heapFlags.toNat).announced = h.sizes.announced := by
    funext t
    rw [TableSizes.announced_ofCounts, lookup_counts]
    simp only [mem_numbers]
    rfl
  rw [TableSizes.ofCounts] at hannounced ⊢
  simp only at hannounced
  rw [hannounced]
  rfl

theorem read_sizes (h : TableHeader) (behind : List UInt8) :
    TableSizes.read (Bytes.ofList (h.bytes ++ behind)) h.valid.toNat h.heapFlags.toNat
      = .ok (h.sizes, h.bytes.length) := by
  rw [TableSizes.read, readCounts_bytes, length_bytes]
  show Except.ok _ = _
  rw [ofCounts_counts, List.length_map]

/-- The stream that a header announces, when its rows are laid out from `start` on. -/
def stream (h : TableHeader) (data : ByteArray) (start : Nat) : TableStream where
  data := data
  majorVersion := h.majorVersion.toNat
  minorVersion := h.minorVersion.toNat
  valid := h.valid.toNat
  sorted := h.sorted.toNat
  sizes := h.sizes
  places := TableStream.placesFrom h.sizes TableId.all start

/-- A word at the front of the header. -/
theorem word_fixed (h : TableHeader) (behind : List UInt8) {offset width : Nat}
    (hle : offset + width ≤ 24) :
    Bytes.word (Bytes.ofList (h.bytes ++ behind)) width offset
      = .ok (littleEndian ((h.fixedBytes.drop offset).take width)) := by
  have hlength : h.fixedBytes.length = 24 := rfl
  rw [bytes, List.append_assoc, Bytes.word_ofList (by rw [List.length_append]; omega),
    List.drop_append_of_le_length (by omega),
    List.take_append_of_le_length (by rw [List.length_drop]; omega)]

/-- **The header is read back from its bytes**, and what remains is to lay out the rows. -/
theorem read_header (h : TableHeader) (hvalid : h.valid ≠ 0) (behind : List UInt8)
    (hextra : h.extraSize ≤ behind.length) :
    let data := Bytes.ofList (h.bytes ++ behind)
    let start := h.bytes.length + h.extraSize
    TableStream.read data
      = if start + h.sizes.span TableId.all ≤ data.size then .ok (h.stream data start)
        else .error .outOfBounds := by
  intro data start
  have hword : ∀ offset width, offset + width ≤ 24 → Bytes.word data width offset
      = .ok (littleEndian ((h.fixedBytes.drop offset).take width)) :=
    fun _ _ hle => h.word_fixed behind hle
  have hsize : ¬ data.size < TableStream.headerSize := by
    show ¬ (h.bytes ++ behind).length < 24
    rw [List.length_append, length_bytes]
    show ¬ 24 + _ + _ < 24
    omega
  have hmajor : Bytes.word data 1 4 = .ok h.majorVersion.toNat := by
    rw [hword 4 1 (by omega)]
    rfl
  have hminor : Bytes.word data 1 5 = .ok h.minorVersion.toNat := by
    rw [hword 5 1 (by omega)]
    rfl
  have hflags : Bytes.word data 1 6 = .ok h.heapFlags.toNat := by
    rw [hword 6 1 (by omega)]
    rfl
  have hvector : Bytes.word data 8 8 = .ok h.valid.toNat := by
    rw [hword 8 8 (by omega)]
    exact congrArg Except.ok (@littleEndian_ofNatLE 8 _ h.valid.toNat_lt)
  have hsorted : Bytes.word data 8 16 = .ok h.sorted.toNat := by
    rw [hword 16 8 (by omega)]
    exact congrArg Except.ok (@littleEndian_ofNatLE 8 _ h.sorted.toNat_lt)
  have hsome : ¬ h.valid.toNat = 0 := fun hzero => hvalid (UInt64.toNat_inj.1 hzero)
  have hsizes : TableSizes.read data h.valid.toNat h.heapFlags.toNat
      = .ok (h.sizes, h.bytes.length) := h.read_sizes behind
  simp only [TableStream.read, if_neg hsize, hmajor, hminor, hflags, hvector, hsorted, bind_ok]
  rw [if_neg hsome, hsizes, bind_ok]
  have hstart : (if h.heapFlags.toNat.testBit TableStream.extraDataBit
      then h.bytes.length + 4 else h.bytes.length) = start := by
    show _ = h.bytes.length + h.extraSize
    rw [extraSize]
    split <;> rfl
  have hinside : start ≤ data.size := by
    show h.bytes.length + h.extraSize ≤ (h.bytes ++ behind).length
    rw [List.length_append]
    exact Nat.add_le_add_left hextra _
  show TableStream.layoutFrom h.sizes data.size TableId.all _ >>= _ = _
  rw [hstart, TableStream.layoutFrom_eq _ _ hinside]
  split <;> rfl

/-! ## 5. The rows of an accepted stream -/

/-- The place of a table in a stream with this header: behind the header, the four bytes if they are
there, and the tables in front. -/
def begins (h : TableHeader) (t : TableId) : Nat :=
  h.bytes.length + h.extraSize + h.sizes.offsetOf t

/-- The place behind a table. -/
def ends (h : TableHeader) (t : TableId) : Nat :=
  h.begins t + h.sizes.tableBytes t

/-- The bytes of one row of a table, counted from one, among the bytes of all rows. -/
def rowBlock (h : TableHeader) (body : List UInt8) (t : TableId) (number : Nat) : List UInt8 :=
  (body.drop (h.sizes.offsetOf t + (number - 1) * h.sizes.rowSize t)).take (h.sizes.rowSize t)

/-- What an accepted stream looks like: the tables follow one another in the order of their numbers,
without a gap and without a byte in two of them, inside the stream; every table has the announced
rows; a table can be asked for exactly if it has rows, and each of its rows is made from its own
block of bytes. -/
structure LaidOut (h : TableHeader) (body : List UInt8) (s : TableStream) : Prop where
  sizes_eq : s.sizes = h.sizes
  rows_eq : ∀ t, s.rows t
    = if h.valid.toNat.testBit t.number then (h.counts t.number).toNat else 0
  place_eq : ∀ t, s.places.lookup t = if s.rows t = 0 then none else some (h.begins t)
  first : h.begins .module = h.bytes.length + h.extraSize
  consecutive : ∀ {t u : TableId}, u.number = t.number + 1 → h.begins u = h.ends t
  disjoint : ∀ {t u : TableId}, t.number < u.number → h.ends t ≤ h.begins u
  inside : ∀ t, h.ends t ≤ s.data.size
  make_table : ∀ (ρ : Type) [TableRow ρ], ∃ table, Table.make ρ s.sizes s.data
    (h.begins (TableRow.table ρ)) (s.rows (TableRow.table ρ)) = .ok table
  table_isSome : ∀ (ρ : Type) [TableRow ρ],
    (s.table ρ).isSome ↔ s.rows (TableRow.table ρ) ≠ 0
  get_eq : ∀ {ρ : Type} [TableRow ρ] {table : Table ρ}, s.table ρ = some table →
    table.rowCount = s.rows (TableRow.table ρ) ∧
    ∀ {number : Nat}, 1 ≤ number → number ≤ table.rowCount →
      table.get number = (Cells.read h.sizes
        (Bytes.ofList (h.rowBlock body (TableRow.table ρ) number))
        (TableRow.table ρ).columns 0).map (TableRow.ofCells number)

section Stream

variable (h : TableHeader) {extra body : List UInt8} (hextra : extra.length = h.extraSize)
  (hfits : h.sizes.span TableId.all ≤ body.length)

include hextra hfits

theorem ends_le (t : TableId) : h.ends t ≤ (h.bytes ++ (extra ++ body)).length := by
  have hle := h.sizes.offsetOf_add_le t
  rw [List.length_append, List.length_append, ends, begins]
  omega

omit hfits in
/-- The bytes from a row on begin with the block of the row. -/
theorem rowBlock_eq {t : TableId} {number : Nat} :
    ((h.bytes ++ (extra ++ body)).drop (h.begins t + (number - 1) * h.sizes.rowSize t)).take
        (h.sizes.rowSize t)
      = h.rowBlock body t number := by
  have hplace : h.begins t + (number - 1) * h.sizes.rowSize t
      = (h.bytes ++ extra).length + (h.sizes.offsetOf t + (number - 1) * h.sizes.rowSize t) := by
    rw [List.length_append, hextra, begins]
    omega
  rw [hplace, ← List.append_assoc, List.drop_length_add_append, rowBlock]

theorem make_table (ρ : Type) [TableRow ρ] :
    Table.make ρ h.sizes (Bytes.ofList (h.bytes ++ (extra ++ body)))
        (h.begins (TableRow.table ρ)) (h.sizes.rows (TableRow.table ρ))
      = .ok ⟨h.sizes, Bytes.ofList (h.bytes ++ (extra ++ body)),
          h.begins (TableRow.table ρ), h.sizes.rows (TableRow.table ρ)⟩ := by
  rw [Table.make]
  exact if_pos (h.ends_le hextra hfits _)

theorem stream_table (ρ : Type) [TableRow ρ] :
    (h.stream (Bytes.ofList (h.bytes ++ (extra ++ body))) (h.bytes.length + h.extraSize)).table ρ
      = if h.sizes.rows (TableRow.table ρ) = 0 then none
        else some ⟨h.sizes, Bytes.ofList (h.bytes ++ (extra ++ body)),
          h.begins (TableRow.table ρ), h.sizes.rows (TableRow.table ρ)⟩ := by
  show ((TableStream.placesFrom h.sizes TableId.all (h.bytes.length + h.extraSize)).lookup _ >>=
    fun start => (Table.make ρ h.sizes (Bytes.ofList (h.bytes ++ (extra ++ body))) start
      (h.sizes.rows (TableRow.table ρ))).toOption) = _
  rw [TableStream.lookup_placesFrom_all]
  split
  · rfl
  · show (Table.make ρ h.sizes _ (h.begins _) _).toOption = _
    rw [h.make_table hextra hfits]
    rfl

/-- A row is made from its own block of bytes. -/
theorem get_row {ρ : Type} [TableRow ρ] {number : Nat} (hfirst : 1 ≤ number)
    (hlast : number ≤ h.sizes.rows (TableRow.table ρ)) :
    Table.get ⟨h.sizes, Bytes.ofList (h.bytes ++ (extra ++ body)),
        h.begins (TableRow.table ρ), h.sizes.rows (TableRow.table ρ)⟩ number
      = (Cells.read h.sizes (Bytes.ofList (h.rowBlock body (TableRow.table ρ) number))
          (TableRow.table ρ).columns 0).map (TableRow.ofCells (ρ := ρ) number) := by
  have hrow : (number - 1) * h.sizes.rowSize (TableRow.table ρ)
      + h.sizes.rowSize (TableRow.table ρ) ≤ h.sizes.tableBytes (TableRow.table ρ) := by
    rw [← Nat.succ_mul, TableSizes.tableBytes]
    exact Nat.mul_le_mul_right _ (by omega)
  have hends := h.ends_le hextra hfits (TableRow.table ρ)
  have hcells : Cells.read h.sizes (Bytes.ofList (h.bytes ++ (extra ++ body)))
        (TableRow.table ρ).columns
        (h.begins (TableRow.table ρ) + (number - 1) * h.sizes.rowSize (TableRow.table ρ))
      = Cells.read h.sizes (Bytes.ofList (h.rowBlock body (TableRow.table ρ) number))
        (TableRow.table ρ).columns 0 := by
    refine Cells.read_congr _ _ _ fun i w hi => ?_
    rw [Nat.zero_add, ← h.rowBlock_eq hextra]
    rw [ends] at hends
    exact Bytes.word_part (by omega) hi
  rw [Table.get, if_pos ⟨hfirst, hlast⟩]
  show Cells.read _ _ _ (h.begins _ + (number - 1) * h.sizes.rowSize _) >>= _ = _
  rw [hcells]
  cases Cells.read h.sizes (Bytes.ofList (h.rowBlock body (TableRow.table ρ) number))
    (TableRow.table ρ).columns 0 <;> rfl

/-- The stream that a header announces, with enough bytes for all rows, is laid out. -/
theorem laidOut_stream :
    h.LaidOut body
      (h.stream (Bytes.ofList (h.bytes ++ (extra ++ body))) (h.bytes.length + h.extraSize)) where
  sizes_eq := rfl
  rows_eq t := by
    show ((if h.valid.toNat.testBit t.number then some (h.counts t.number).toNat
      else none : Option Nat)).getD 0 = _
    split <;> rfl
  place_eq t := TableStream.lookup_placesFrom_all h.sizes t _
  first := rfl
  consecutive hnext := by
    rw [begins, h.sizes.offsetOf_next hnext, ← Nat.add_assoc]
    rfl
  disjoint hlt := by
    have hle := h.sizes.offsetOf_add_le_of_lt hlt
    rw [ends, begins, begins]
    omega
  inside t := h.ends_le hextra hfits t
  make_table ρ _ := ⟨_, h.make_table hextra hfits ρ⟩
  table_isSome ρ _ := by
    rw [h.stream_table hextra hfits]
    show _ ↔ h.sizes.rows _ ≠ 0
    split <;> simp [*]
  get_eq {ρ _ table} htable := by
    rw [h.stream_table hextra hfits] at htable
    split at htable
    · cases htable
    · obtain rfl := Option.some.inj htable
      exact ⟨rfl, fun hfirst hlast => h.get_row hextra hfits hfirst hlast⟩

end Stream

/-- **A stream is accepted exactly if the bytes behind its header hold all rows of the known
tables**; a shorter one ends too early, and in an accepted one every table and every row is where
the header puts it. -/
theorem read_stream_iff (h : TableHeader) (hvalid : h.valid ≠ 0) {extra : List UInt8}
    (hextra : extra.length = h.extraSize) (body : List UInt8) :
    let data := Bytes.ofList (h.bytes ++ (extra ++ body))
    ((∃ s, TableStream.read data = .ok s) ↔ h.sizes.span TableId.all ≤ body.length) ∧
    (body.length < h.sizes.span TableId.all → TableStream.read data = .error .outOfBounds) ∧
    ∀ s, TableStream.read data = .ok s → s.data = data ∧ h.LaidOut body s := by
  intro data
  have hread := h.read_header hvalid (extra ++ body) (by
    rw [List.length_append, hextra]
    omega)
  have hroom : h.bytes.length + h.extraSize + h.sizes.span TableId.all ≤ data.size
      ↔ h.sizes.span TableId.all ≤ body.length := by
    show _ ≤ (h.bytes ++ (extra ++ body)).length ↔ _
    rw [List.length_append, List.length_append, hextra]
    omega
  by_cases hfits : h.sizes.span TableId.all ≤ body.length
  · have hok := hread.trans (if_pos (hroom.2 hfits))
    refine ⟨⟨fun _ => hfits, fun _ => ⟨_, hok⟩⟩, fun hlt => absurd hfits (by omega), ?_⟩
    intro s hs
    obtain rfl := Except.ok.inj (hok.symm.trans hs)
    exact ⟨rfl, h.laidOut_stream hextra hfits⟩
  · have herror := hread.trans (if_neg fun hle => hfits (hroom.1 hle))
    refine ⟨⟨fun hs => ?_, fun hle => absurd hle hfits⟩, fun _ => herror, fun s hs => ?_⟩
    · obtain ⟨s, hs⟩ := hs
      cases herror.symm.trans hs
    · cases herror.symm.trans hs

/-- A header for one row of the module table and seven rows of a table of no known kind, with four
more bytes behind it. -/
def oneModule : TableHeader where
  reserved := 0
  majorVersion := 2
  minorVersion := 0
  heapFlags := 0x40
  filler := 1
  valid := 0x200000000001
  sorted := 0
  counts n := if n = 0 then 1 else 7

/-- Ten bytes behind the header are enough for its one row, and nine are not. -/
theorem read_stream_oneModule :
    oneModule.valid ≠ 0 ∧ [0, 0, 0, 0].length = oneModule.extraSize ∧
    (∃ s, TableStream.read (Bytes.ofList
      (oneModule.bytes ++ ([0, 0, 0, 0] ++ List.replicate 10 0))) = .ok s) ∧
    TableStream.read (Bytes.ofList
      (oneModule.bytes ++ ([0, 0, 0, 0] ++ List.replicate 9 0))) = .error .outOfBounds := by
  have hvalid : oneModule.valid ≠ 0 := by decide
  have hextra : [(0 : UInt8), 0, 0, 0].length = oneModule.extraSize := by decide
  have hspan : oneModule.sizes.span TableId.all = 10 := by decide
  have henough := read_stream_iff oneModule hvalid hextra (List.replicate 10 0)
  have hshort := read_stream_iff oneModule hvalid hextra (List.replicate 9 0)
  refine ⟨hvalid, hextra, henough.1.2 ?_, hshort.2.1 ?_⟩
  · simp only [hspan, List.length_replicate, Nat.le_refl]
  · simp only [hspan, List.length_replicate, Nat.lt_add_one]

end TableHeader

end InteropTables
