import InteropTables.Proofs.Machine.Blocks
import InteropTables.Proofs.Metadata.Rows

/-!
# Widths of columns and rows on a machine of words

The machine keeps the row counts of all tables, with the bits that hold their row numbers, and the
bits of all coded columns, in arrays by number. A width is looked up there; a row size is a sum in
a word of four bytes, the bits of a coded column are a sum in a single byte.

* `RowInfo`, `SizeInfo`: what the arrays hold; `SizeInfo.Shows`: they show the sizes of the library;
* `readInfo_follows`: **the arrays that are read from a stream show the sizes that the library
  reads**, and the place behind the row counts is the same;
* `columnBytes_eq`, `rowSize_eq`: widths and row sizes are those of the library.
-/

namespace InteropTables

namespace Machine

/-! ## 1. Bits -/

/-- The zero bits in front of a number in a word of so many bits. -/
def leadingZeros (bits n : Nat) : Nat :=
  if n = 0 then bits else bits - 1 - n.log2

/-- How many low bits of a coded column hold the tag. -/
def tagBits (k : CodedKind) : Run Nat := do
  let last ← sub k.targets.length 1
  sub 64 (leadingZeros 64 last)

theorem tagBits_eq (k : CodedKind) : tagBits k = pure k.tagBits := by
  cases k <;> rfl

/-- What is known of the rows of a table. -/
structure RowInfo where
  rows : Nat := 0
  /-- The bits that hold any row number. -/
  bits : Nat := 0
  /-- Row numbers take four bytes. -/
  isWide : Bool := false

/-- What follows from the row count of an announced table. -/
def RowInfo.ofCount (rows : Nat) : Run RowInfo :=
  if rows = 0 then return { rows, bits := 1 }
  else do
    let bits ← sub 32 (leadingZeros 32 rows)
    return { rows, bits, isWide := wordCount 2 ≤ rows }

/-- The same for the library, which counts the bits directly. -/
def RowInfo.ofAnnounced (rows : Nat) : RowInfo :=
  { rows, bits := rows.log2 + 1, isWide := wordCount 2 ≤ rows }

theorem log2_lt_of_lt {n : Nat} (h : n < wordCount 4) : n.log2 < 32 := by
  by_cases hzero : n = 0
  · rw [hzero]
    decide
  · exact (Nat.log2_lt hzero).2 h

theorem RowInfo.ofCount_eq {rows : Nat} (h : rows < wordCount 4) :
    RowInfo.ofCount rows = pure (.ofAnnounced rows) := by
  rw [ofCount]
  by_cases hzero : rows = 0
  · rw [if_pos hzero, hzero]
    rfl
  · have hlog := log2_lt_of_lt h
    have hbits : 32 - (32 - 1 - rows.log2) = rows.log2 + 1 := by omega
    rw [if_neg hzero, leadingZeros, if_neg hzero, sub_of_le (by omega), Run.pure_then, hbits]
    rfl

/-! ## 2. What the machine keeps -/

/-- The row counts of all tables and the bits of all coded columns, by number, and the heap
flags. -/
structure SizeInfo where
  tables : Array RowInfo
  codedBits : Array Nat
  wideText : Bool
  wideGuids : Bool
  wideBlobs : Bool

/-- Whether row numbers of a table take four bytes. -/
def isWide (info : SizeInfo) (t : TableId) : Run Bool := do
  return (← entry info.tables t.number).isWide

/-- The bytes of a coded column. -/
def codedBytes (info : SizeInfo) (k : CodedKind) : Run Nat := do
  return TableSizes.widthOf (16 < (← entry info.codedBits k.ctorIdx))

/-- The bytes of a column. -/
def columnBytes (info : SizeInfo) : Column → Run Nat
  | .word16 => pure 2
  | .word32 => pure 4
  | .text => pure (TableSizes.widthOf info.wideText)
  | .guid => pure (TableSizes.widthOf info.wideGuids)
  | .blob => pure (TableSizes.widthOf info.wideBlobs)
  | .index t => do return TableSizes.widthOf (← isWide info t)
  | .coded k => codedBytes info k

/-- The bytes of a row. -/
def rowSize (info : SizeInfo) (t : TableId) : Run Nat :=
  t.columns.foldlM (fun total c => do add 4 total (← columnBytes info c)) 0

/-- The arrays show the sizes of the library. -/
structure SizeInfo.Shows (info : SizeInfo) (s : TableSizes) : Prop where
  tables : ∀ t : TableId, info.tables[t.number]? = some ⟨s.rows t, s.bits t, s.isWide t⟩
  codedBits : ∀ k : CodedKind, info.codedBits[k.ctorIdx]? = some (s.codedBits k)
  wideText : info.wideText = s.wideText
  wideGuids : info.wideGuids = s.wideGuids
  wideBlobs : info.wideBlobs = s.wideBlobs

section Shows

variable {info : SizeInfo} {s : TableSizes}

theorem columnBytes_eq (h : info.Shows s) (c : Column) : columnBytes info c = pure (s.width c) := by
  cases c with
  | index t =>
    rw [columnBytes, isWide, entry_of_some (h.tables t)]
    rfl
  | coded k =>
    rw [columnBytes, codedBytes, entry_of_some (h.codedBits k)]
    rfl
  | text => rw [columnBytes, h.wideText]; rfl
  | guid => rw [columnBytes, h.wideGuids]; rfl
  | blob => rw [columnBytes, h.wideBlobs]; rfl
  | word16 => rfl
  | word32 => rfl

theorem widthSum_cons (s : TableSizes) (c : Column) (cs : List Column) :
    s.widthSum (c :: cs) = s.width c + s.widthSum cs := rfl

/-- Widths are small, so that few of them make a small sum. -/
theorem widthSum_le (s : TableSizes) (columns : List Column) :
    s.widthSum columns ≤ 4 * columns.length := by
  induction columns with
  | nil => exact Nat.le_refl _
  | cons c cs ih =>
    have := s.width_cases c
    rw [widthSum_cons, List.length_cons]
    omega

theorem rowSize_le (s : TableSizes) (t : TableId) : s.rowSize t ≤ 36 := by
  have hcolumns : t.columns.length ≤ 9 := by cases t <;> decide
  have hsum : s.rowSize t ≤ 4 * t.columns.length := widthSum_le s t.columns
  omega

theorem two_le_rowSize (s : TableSizes) (t : TableId) : 2 ≤ s.rowSize t := by
  obtain ⟨c, cs, hcolumns⟩ : ∃ c cs, t.columns = c :: cs := by cases t <;> exact ⟨_, _, rfl⟩
  have := s.width_cases c
  rw [TableSizes.rowSize, hcolumns, widthSum_cons]
  omega

theorem sumWidths_eq (h : info.Shows s) (columns : List Column) (total : Nat)
    (htotal : total + s.widthSum columns < wordCount 4) :
    columns.foldlM (fun total c => do add 4 total (← columnBytes info c)) total
      = pure (total + s.widthSum columns) := by
  induction columns generalizing total with
  | nil => rfl
  | cons c cs ih =>
    rw [widthSum_cons, ← Nat.add_assoc] at htotal ⊢
    rw [List.foldlM_cons, columnBytes_eq h, Run.pure_then, add_of_lt (by omega), Run.pure_then]
    exact ih _ htotal

theorem rowSize_eq (h : info.Shows s) (t : TableId) : rowSize info t = pure (s.rowSize t) := by
  have hsmall := rowSize_le s t
  have hfour := wordCount_four
  have hsum : s.rowSize t = 0 + s.widthSum t.columns := (Nat.zero_add _).symm
  rw [rowSize, sumWidths_eq h t.columns 0 (by omega), hsum]

end Shows

/-! ## 3. Arrays that are filled by number -/

section Fill

variable {α β : Type}

/-- The array with new elements at given places, the last one for a place deciding. -/
def setAll (xs : Array α) (entries : List (Nat × α)) : Array α :=
  entries.foldl (fun xs e => xs.setIfInBounds e.1 e.2) xs

/-- Every place is filled at most once, so it holds what the list has for it. -/
theorem getElem?_setAll {xs : Array α} {entries : List (Nat × α)}
    (hnodup : (entries.map (·.1)).Nodup) {j : Nat} (hj : j < xs.size) :
    (setAll xs entries)[j]? = (entries.lookup j).or xs[j]? := by
  induction entries generalizing xs with
  | nil => rfl
  | cons e entries ih =>
    obtain ⟨i, a⟩ := e
    obtain ⟨hnotin, hnodup⟩ := List.nodup_cons.1 hnodup
    have hkept : j < (xs.setIfInBounds i a).size := by
      rw [Array.size_setIfInBounds]
      exact hj
    have hmore := ih hnodup hkept
    show (setAll (xs.setIfInBounds i a) entries)[j]? = _
    rw [hmore, List.lookup_cons]
    by_cases hij : j = i
    · subst hij
      have hnone : entries.lookup j = none := by
        rw [List.lookup_eq_none_iff]
        intro e he
        exact bne_iff_ne.2 fun hje => hnotin (List.mem_map.2 ⟨e, he, hje.symm⟩)
      rw [hnone, Array.getElem?_setIfInBounds_self_of_lt hj, beq_self_eq_true]
      rfl
    · rw [Array.getElem?_setIfInBounds_ne (Ne.symm hij), beq_false_of_ne hij]

theorem mem_of_lookup {entries : List (α × β)} [BEq α] [LawfulBEq α] {a : α} {b : β}
    (h : entries.lookup a = some b) : (a, b) ∈ entries := by
  obtain ⟨before, rest, rfl, _⟩ := List.lookup_eq_some_iff.1 h
  exact List.mem_append_right _ (List.mem_cons_self ..)

theorem lookup_map_snd (f : α → β) (entries : List (Nat × α)) (j : Nat) :
    (entries.map fun e => (e.1, f e.2)).lookup j = (entries.lookup j).map f := by
  induction entries with
  | nil => rfl
  | cons e entries ih =>
    obtain ⟨i, a⟩ := e
    rw [List.map_cons, List.lookup_cons, List.lookup_cons, ih]
    cases j == i <;> rfl

end Fill

/-! ## 4. Row counts -/

/-- The row count of one more table, if its bit is set. Tables of no known kind have counts, too,
but no place in the array. -/
def readCount (data : ByteArray) (valid : Nat) (state : Array RowInfo × Nat) (number : Nat) :
    Run (Array RowInfo × Nat) := do
  let mask ← shiftLeft 8 1 number
  if valid &&& mask = 0 then return state
  else do
    let stop ← add 8 state.2 4
    if data.size < stop then .fail .outOfBounds
    else do
      let (count, place) ← readAt data 4 state.2
      if number < state.1.size then do
        let info ← RowInfo.ofCount count
        let tables ← setEntry state.1 number info
        return (tables, place)
      else return (state.1, place)

/-- The bits of a coded column: those for the largest row number of its tables, and its tag. -/
def codedBitsOf (tables : Array RowInfo) (k : CodedKind) : Run Nat := do
  let bits ← k.targets.mapM fun t => do return (← entry tables t.number).bits
  add 1 (bits.foldl max 0) (← tagBits k)

/-- The bits of all coded columns, by number. -/
def fillCodedBits (tables : Array RowInfo) : Run (Array Nat) :=
  CodedKind.all.foldlM (fun bits k => do setEntry bits k.ctorIdx (← codedBitsOf tables k))
    (Array.replicate CodedKind.all.length 0)

/-- The sizes that a stream announces, and the place behind the row counts. -/
def readInfo (data : ByteArray) (valid heapFlags : Nat) : Run (SizeInfo × Nat) := do
  let (tables, place) ← (List.range 64).foldlM (readCount data valid)
    (Array.replicate TableId.all.length {}, TableSizes.countsOffset)
  let codedBits ← fillCodedBits tables
  return (
    { tables, codedBits
      wideText := heapFlags.testBit 0
      wideGuids := heapFlags.testBit 1
      wideBlobs := heapFlags.testBit 2 }, place)

section Counts

variable {data : ByteArray} {valid : Nat}

/-- A bit is set exactly if it is left when all others are cleared. -/
theorem and_shiftLeft_eq_zero_iff (n i : Nat) : n &&& 1 <<< i = 0 ↔ n.testBit i = false := by
  have hbit : ∀ j, (1 <<< i).testBit j = decide (j = i) := by
    intro j
    rw [Nat.one_shiftLeft, Nat.testBit_two_pow]
    exact decide_eq_decide.2 eq_comm
  constructor
  · intro h
    have hzero : (n &&& 1 <<< i).testBit i = Nat.testBit 0 i := by rw [h]
    rwa [Nat.testBit_and, hbit, decide_eq_true rfl, Bool.and_true, Nat.zero_testBit] at hzero
  · intro h
    apply Nat.eq_of_testBit_eq
    intro j
    rw [Nat.testBit_and, hbit, Nat.zero_testBit]
    by_cases hj : j = i
    · rw [hj, h, Bool.false_and]
    · rw [decide_eq_false hj, Bool.and_false]

theorem mask_eq : ∀ i < 64, shiftLeft 8 1 i = pure (1 <<< i) := by
  intro i hi
  have hsmall : ∀ i < 64, 1 <<< i % wordCount 8 = 1 <<< i := by decide
  rw [shiftLeft_of_lt (by omega), hsmall i hi]

/-- What the machine has for a table with a row count. -/
def infoEntries (counts : List (Nat × Nat)) : List (Nat × RowInfo) :=
  counts.map fun c => (c.1, RowInfo.ofAnnounced c.2)

/-- A bit that is clear changes nothing. -/
theorem readCount_of_clear {n : Nat} (hn : n < 64) (hbit : ¬ valid.testBit n = true)
    (state : Array RowInfo × Nat) : readCount data valid state n = pure state := by
  have hclear : valid &&& 1 <<< n = 0 :=
    (and_shiftLeft_eq_zero_iff valid n).2 (Bool.eq_false_iff.2 hbit)
  rw [readCount, mask_eq n hn, Run.pure_then, if_pos hclear]

/-- A bit that is set comes with a word; its number is kept if the array has a place for it. -/
theorem readCount_of_set (hdata : data.size < wordCount 8) {n place : Nat} (hn : n < 64)
    (hbit : valid.testBit n = true) (tables : Array RowInfo) (hplace : place + 4 < wordCount 8) :
    readCount data valid (tables, place) n =
      if data.size < place + 4 then .fail .outOfBounds
      else pure (tables.setIfInBounds n (.ofAnnounced (Bytes.number data 4 place)), place + 4) := by
  have hset : ¬ valid &&& 1 <<< n = 0 := by
    rw [and_shiftLeft_eq_zero_iff, hbit]
    exact nofun
  rw [readCount, mask_eq n hn, Run.pure_then, if_neg hset, add_of_lt hplace, Run.pure_then]
  dsimp only
  by_cases hshort : data.size < place + 4
  · rw [if_pos hshort, if_pos hshort]
  have hinside : place + 4 ≤ data.size := Nat.le_of_not_lt hshort
  have hcount := Bytes.number_lt hinside
  rw [if_neg hshort, if_neg hshort, readAt_of_le hdata hinside, Run.pure_then]
  generalize Bytes.number data 4 place = count at hcount ⊢
  by_cases hlt : n < tables.size
  · rw [if_pos hlt, RowInfo.ofCount_eq hcount, Run.pure_then, setEntry_of_lt hlt]
    rfl
  · rw [if_neg hlt, Array.setIfInBounds, dif_neg hlt]

/-- The loop over all bits keeps the place behind the counts read so far inside the block. -/
theorem readCounts_follows (valid : Nat) (hdata : data.size < wordCount 4) (numbers : List Nat)
    (hnumbers : ∀ n ∈ numbers, n < 64) (tables : Array RowInfo) (i : Nat)
    (hplace : TableSizes.countsOffset + 4 * i ≤ data.size) :
    Follows (fun a counts => a = (setAll tables (infoEntries counts),
          TableSizes.countsOffset + 4 * (i + counts.length)) ∧
        TableSizes.countsOffset + 4 * (i + counts.length) ≤ data.size ∧
        counts.map (·.1) = numbers.filter valid.testBit ∧ ∀ c ∈ counts, c.2 < wordCount 4)
      (numbers.foldlM (readCount data valid) (tables, TableSizes.countsOffset + 4 * i))
      (((numbers.filter valid.testBit).zipIdx i).mapM fun (number, i) => do
        return (number, ← Bytes.word data 4 (TableSizes.countsOffset + 4 * i))) := by
  have hfour := wordCount_four
  have height := wordCount_eight
  induction numbers generalizing tables i with
  | nil => exact follows_pure ⟨rfl, hplace, rfl, fun _ h => nomatch h⟩
  | cons n numbers ih =>
    have hn := hnumbers n (List.mem_cons_self ..)
    have hmore := fun m hm => hnumbers m (List.mem_cons_of_mem _ hm)
    rw [List.foldlM_cons]
    by_cases hbit : valid.testBit n = true
    · rw [readCount_of_set (by omega) hn hbit tables (by omega), List.filter_cons_of_pos hbit,
        List.zipIdx_cons, List.mapM_cons]
      dsimp only
      by_cases hinside : TableSizes.countsOffset + 4 * i + 4 ≤ data.size
      · have hcount := Bytes.number_lt hinside
        rw [if_neg (by omega), Run.pure_then, Bytes.word_of_le hinside]
        generalize Bytes.number data 4 (TableSizes.countsOffset + 4 * i) = count at hcount ⊢
        simp only [bind_ok, pure_bind]
        refine (ih hmore (tables.setIfInBounds n (.ofAnnounced count)) (i + 1) hinside).map_right
          fun a counts ha => ?_
        obtain ⟨rfl, hend, hkeys, hcounts⟩ := ha
        have hlength : i + 1 + counts.length = i + ((n, count) :: counts).length := by
          rw [List.length_cons]
          omega
        rw [hlength] at hend
        refine ⟨?_, hend, ?_, ?_⟩
        · rw [hlength]
          rfl
        · rw [List.map_cons, hkeys]
        · exact List.forall_mem_cons.2 ⟨hcount, hcounts⟩
      · rw [if_pos (by omega), Bytes.word_of_lt (by omega)]
        exact follows_fail _
    · rw [readCount_of_clear hn hbit, List.filter_cons_of_neg hbit, Run.pure_then]
      exact ih hmore tables i hplace

end Counts

/-! ## 5. Coded columns -/

section Coded

variable {tables : Array RowInfo} {s : TableSizes}

theorem bits_le (hrows : ∀ t, s.rows t < wordCount 4) (t : TableId) : s.bits t ≤ 32 := by
  have h := hrows t
  rw [TableSizes.rows] at h
  rw [TableSizes.bits]
  cases hannounced : s.announced t with
  | none => exact Nat.zero_le _
  | some n =>
    rw [hannounced] at h
    exact log2_lt_of_lt h

theorem codedBitsOf_eq (htables : ∀ t : TableId,
      tables[t.number]? = some ⟨s.rows t, s.bits t, s.isWide t⟩)
    (hrows : ∀ t, s.rows t < wordCount 4) (k : CodedKind) :
    codedBitsOf tables k = pure (s.codedBits k) := by
  have hbits : k.targets.mapM (fun t => do return (← entry tables t.number).bits)
      = (pure (k.targets.map s.bits) : Run (List Nat)) := by
    have hentry : (fun t : TableId => (do return (← entry tables t.number).bits : Run Nat))
        = fun t => pure (s.bits t) := by
      funext t
      rw [entry_of_some (htables t), Run.pure_then]
    rw [hentry, List.mapM_pure]
  have hmax : (k.targets.map s.bits).foldl max 0 ≤ 32 := by
    rw [foldl_max_le_iff]
    refine ⟨Nat.zero_le _, fun x hx => ?_⟩
    obtain ⟨t, _, rfl⟩ := List.mem_map.1 hx
    exact bits_le hrows t
  have htag := k.tagBits_le
  have hone : wordCount 1 = 256 := rfl
  rw [codedBitsOf, hbits, Run.pure_then, tagBits_eq, Run.pure_then, add_of_lt (by omega)]
  rfl

/-- Filling the array by number never leaves it. -/
theorem fillAll_eq (hcoded : ∀ k, codedBitsOf tables k = pure (s.codedBits k))
    (kinds : List CodedKind) (bits : Array Nat) (hsize : bits.size = CodedKind.all.length) :
    kinds.foldlM (fun bits k => do setEntry bits k.ctorIdx (← codedBitsOf tables k)) bits
      = pure (setAll bits (kinds.map fun k => (k.ctorIdx, s.codedBits k))) := by
  induction kinds generalizing bits with
  | nil => rfl
  | cons k kinds ih =>
    have hk : k.ctorIdx < bits.size := by
      rw [hsize]
      cases k <;> decide
    rw [List.foldlM_cons, hcoded, Run.pure_then, setEntry_of_lt hk, Run.pure_then]
    exact ih _ (by rw [Array.size_setIfInBounds]; exact hsize)

theorem fillCodedBits_eq (hcoded : ∀ k, codedBitsOf tables k = pure (s.codedBits k)) :
    ∃ bits : Array Nat, fillCodedBits tables = pure bits ∧
      ∀ k : CodedKind, bits[k.ctorIdx]? = some (s.codedBits k) := by
  have hnodup : ((CodedKind.all.map fun k => (k.ctorIdx, s.codedBits k)).map (·.1)).Nodup := by
    rw [List.map_map]
    show (CodedKind.all.map CodedKind.ctorIdx).Nodup
    decide
  have hsize : (Array.replicate CodedKind.all.length 0 : Array Nat).size = CodedKind.all.length :=
    Array.size_replicate
  refine ⟨_, fillAll_eq hcoded CodedKind.all _ hsize, fun k => ?_⟩
  have hk : k.ctorIdx < CodedKind.all.length := by cases k <;> decide
  rw [getElem?_setAll hnodup (by rw [hsize]; exact hk)]
  cases k <;> rfl

end Coded

/-! ## 6. All sizes -/

/-- Row counts that fit words of four bytes, and the array of them that the machine keeps. -/
theorem tables_ofCounts (heapFlags : Nat) {counts : List (Nat × Nat)} {valid : Nat}
    (hkeys : counts.map (·.1) = (List.range 64).filter valid.testBit) (t : TableId) :
    (setAll (Array.replicate TableId.all.length {}) (infoEntries counts))[t.number]?
      = some ⟨(TableSizes.ofCounts counts heapFlags).rows t,
          (TableSizes.ofCounts counts heapFlags).bits t,
          (TableSizes.ofCounts counts heapFlags).isWide t⟩ := by
  have hnodup : ((infoEntries counts).map (·.1)).Nodup := by
    have hmap : (infoEntries counts).map (·.1) = counts.map (·.1) := by
      rw [infoEntries, List.map_map]
      rfl
    rw [hmap, hkeys]
    exact List.nodup_range.filter _
  have ht : t.number < (Array.replicate TableId.all.length ({} : RowInfo)).size := by
    rw [Array.size_replicate]
    cases t <;> decide
  rw [getElem?_setAll hnodup ht, infoEntries, lookup_map_snd, TableSizes.isWide, TableSizes.bits,
    TableSizes.rows, TableSizes.announced_ofCounts, Array.getElem?_replicate,
    if_pos (by rwa [Array.size_replicate] at ht)]
  cases counts.lookup t.number <;> rfl

theorem rows_ofCounts_lt (heapFlags : Nat) {counts : List (Nat × Nat)}
    (hcounts : ∀ c ∈ counts, c.2 < wordCount 4) (t : TableId) :
    (TableSizes.ofCounts counts heapFlags).rows t < wordCount 4 := by
  rw [TableSizes.rows, TableSizes.announced_ofCounts]
  cases hlookup : counts.lookup t.number with
  | none =>
    show 0 < wordCount 4
    decide
  | some n => exact hcounts (t.number, n) (mem_of_lookup hlookup)

/-- **The arrays that are read show the sizes that the library reads**, and both stop behind the
row counts. -/
theorem readInfo_follows {data : ByteArray} (hdata : data.size < wordCount 4)
    (hheader : TableSizes.countsOffset ≤ data.size) (valid heapFlags : Nat) :
    Follows (fun a b => a.1.Shows b.1 ∧ a.2 = b.2 ∧ b.2 ≤ data.size ∧
        ∀ t, b.1.rows t < wordCount 4)
      (readInfo data valid heapFlags) (TableSizes.read data valid heapFlags) := by
  have hloop := readCounts_follows valid hdata (List.range 64)
    (fun n hn => List.mem_range.1 hn) (Array.replicate TableId.all.length {}) 0 hheader
  refine hloop.bind fun a counts _ ha => ?_
  obtain ⟨rfl, hplace, hkeys, hcounts⟩ := ha
  have hrows := rows_ofCounts_lt heapFlags hcounts
  have htables := tables_ofCounts heapFlags hkeys
  obtain ⟨bits, hbits, hcoded⟩ := fillCodedBits_eq (codedBitsOf_eq htables hrows)
  dsimp only
  rw [hbits, Run.pure_then]
  rw [Nat.zero_add] at hplace ⊢
  exact follows_pure ⟨⟨htables, hcoded, rfl, rfl, rfl⟩, rfl, hplace, hrows⟩

end Machine

end InteropTables
