import InteropTables.Proofs.Metadata.Layout

/-!
# Streams that differ in some rows

In a stream that was read, no byte belongs to rows of two tables. So whatever is written over the
rows of some tables, all other tables are read as before.

* `Bytes.word_congr`: the same bytes are the same number;
* `TableStream.covers`: a place belongs to a row of a table;
* `TableStream.ReadFrom`, `read_eq_ok_iff`: what is read of a block that is a stream;
* `TableStream.Placed`, `placed_of_read`: the tables of a stream stand behind its header, one behind
  the other;
* `TableStream.SameOutside`: two streams that differ at most in rows of some tables;
* `TableStream.sameOutside_of_read`: what is written over rows leaves the rest of a stream alone;
* `TableStream.SameRows`, `SameOutside.sameRows`: **all other tables have the same rows.**
-/

namespace InteropTables

/-! ## 1. Bytes -/

namespace Bytes

theorem getElem?_toList (data : ByteArray) (i : Nat) : (toList data)[i]? = data[i]? := by
  by_cases h : i < data.size
  · have hlist : i < (toList data).length := h
    rw [getElem?_pos data i h, List.getElem?_eq_getElem hlist]
    rfl
  · rw [getElem?_neg data i h]
    exact List.getElem?_eq_none (Nat.le_of_not_lt h)

/-- The same bytes are the same number. -/
theorem word_congr {data data' : ByteArray} {width offset : Nat} (hsize : data'.size = data.size)
    (h : ∀ j, j < width → data'[offset + j]? = data[offset + j]?) :
    word data' width offset = word data width offset := by
  by_cases hle : offset + width ≤ data.size
  · have hpart : ((toList data').drop offset).take width
        = ((toList data).drop offset).take width := by
      refine List.ext_getElem? fun j => ?_
      rw [List.getElem?_take, List.getElem?_take]
      split
      · rename_i hj
        rw [List.getElem?_drop, List.getElem?_drop, getElem?_toList, getElem?_toList, h j hj]
      · rfl
    have hle' : offset + width ≤ data'.size := hsize ▸ hle
    have hread := @word_ofList (toList data) width offset hle
    have hread' := @word_ofList (toList data') width offset hle'
    rw [ofList_toList] at hread hread'
    rw [hread, hread', hpart]
  · unfold word word? slice?
    rw [if_neg (hsize ▸ hle), if_neg hle]

end Bytes

namespace TableStream

/-! ## 2. Places of rows -/

/-- Whether a place in a stream belongs to a row of a table. -/
def covers (s : TableStream) (t : TableId) (i : Nat) : Bool :=
  (s.places.lookup t).any fun start => decide (start ≤ i ∧ i < start + s.sizes.tableBytes t)

/-- The bytes up to the end of the row counts. -/
def headerBytes (s : TableStream) : Nat :=
  headerSize + 4 * s.tableCount

/-- The tables of a stream stand behind its header, in the order of their numbers. -/
def Placed (s : TableStream) : Prop :=
  ∃ start, s.headerBytes ≤ start ∧ ∀ t, s.places.lookup t
    = if s.sizes.rows t = 0 then none else some (start + s.sizes.offsetOf t)

theorem places_of_layoutFrom {sizes : TableSizes} {limit : Nat} {ts : List TableId} :
    ∀ {offset : Nat} {places : List (TableId × Nat)},
      layoutFrom sizes limit ts offset = .ok places → places = placesFrom sizes ts offset := by
  induction ts with
  | nil => exact fun h => (Except.ok.inj h).symm
  | cons t ts ih =>
    intro offset places h
    unfold layoutFrom at h
    unfold placesFrom
    split at h
    · rename_i hrows
      rw [if_pos hrows, ih h]
    · rename_i hrows
      dsimp only at h
      rw [if_neg hrows]
      split at h
      · cases hmore : layoutFrom sizes limit ts (offset + sizes.rows t * sizes.rowSize t) with
        | ok more =>
          rw [hmore] at h
          rw [← Except.ok.inj h, ih hmore]
          rfl
        | error e =>
          rw [hmore] at h
          cases h
      · cases h

/-- There is one row count for each announced table. -/
theorem length_of_readCounts {data : ByteArray} {valid : Nat} {counts : List (Nat × Nat)}
    (h : TableSizes.readCounts data valid = .ok counts) :
    counts.length = (TableSizes.announcedNumbers valid).length := by
  rw [length_of_mapM_ok h, List.length_zipIdx]

theorem readCounts_congr {data data' : ByteArray} {valid : Nat} (hsize : data'.size = data.size)
    (h : ∀ i, i < headerSize + 4 * (TableSizes.announcedNumbers valid).length →
      data'[i]? = data[i]?) :
    TableSizes.readCounts data' valid = TableSizes.readCounts data valid := by
  unfold TableSizes.readCounts
  refine mapM_congr (List.forall₂_same.2 fun (number, i) hmem => ?_)
  have hi : i < (TableSizes.announcedNumbers valid).length := by
    have hlast := (List.mem_zipIdx hmem).2.1
    omega
  have hword : Bytes.word data' 4 (TableSizes.countsOffset + 4 * i)
      = Bytes.word data 4 (TableSizes.countsOffset + 4 * i) :=
    Bytes.word_congr hsize fun j hj => h _ (by rw [TableSizes.countsOffset, headerSize]; omega)
  dsimp only
  rw [hword]

/-- What is read of a block that is a stream: the fixed header, the row counts behind it, and the
places of the tables behind these. -/
structure ReadFrom (data : ByteArray) (s : TableStream) (heapFlags : Nat)
    (counts : List (Nat × Nat)) : Prop where
  data_eq : s.data = data
  long : ¬ data.size < headerSize
  majorVersion : Bytes.word data 1 4 = .ok s.majorVersion
  minorVersion : Bytes.word data 1 5 = .ok s.minorVersion
  flags : Bytes.word data 1 6 = .ok heapFlags
  valid : Bytes.word data 8 8 = .ok s.valid
  sorted : Bytes.word data 8 16 = .ok s.sorted
  announced : s.valid ≠ 0
  listed : TableSizes.readCounts data s.valid = .ok counts
  sizes : s.sizes = .ofCounts counts heapFlags
  places : layoutFrom s.sizes data.size TableId.all
    (if heapFlags.testBit extraDataBit then TableSizes.countsOffset + 4 * counts.length + 4
      else TableSizes.countsOffset + 4 * counts.length) = .ok s.places

/-- **A block is a stream if it has a header, counts and places.** -/
theorem read_eq_ok_iff {data : ByteArray} {s : TableStream} :
    read data = .ok s ↔ ∃ heapFlags counts, ReadFrom data s heapFlags counts := by
  constructor
  · intro h
    unfold read at h
    split at h
    · cases h
    rename_i hlong
    obtain ⟨majorVersion, hmajor, h⟩ := exists_of_bind_ok h
    obtain ⟨minorVersion, hminor, h⟩ := exists_of_bind_ok h
    obtain ⟨heapFlags, hflags, h⟩ := exists_of_bind_ok h
    obtain ⟨valid, hvalid, h⟩ := exists_of_bind_ok h
    obtain ⟨sorted, hsorted, h⟩ := exists_of_bind_ok h
    dsimp only at h
    split at h
    · cases h
    rename_i hannounced
    obtain ⟨⟨sizes, behind⟩, hsizes, h⟩ := exists_of_bind_ok h
    obtain ⟨places, hplaces, h⟩ := exists_of_bind_ok h
    obtain ⟨counts, hcounts, hsizes⟩ := exists_of_bind_ok hsizes
    obtain ⟨rfl, rfl⟩ := Prod.mk.inj (Except.ok.inj hsizes)
    obtain rfl := Except.ok.inj h
    exact ⟨heapFlags, counts, rfl, hlong, hmajor, hminor, hflags, hvalid, hsorted, hannounced,
      hcounts, rfl, hplaces⟩
  · rintro ⟨heapFlags, counts, h⟩
    have hsizes : TableSizes.read data s.valid heapFlags
        = .ok (s.sizes, TableSizes.countsOffset + 4 * counts.length) := by
      unfold TableSizes.read
      rw [h.listed, h.sizes]
      rfl
    unfold read
    rw [if_neg h.long, h.majorVersion, h.minorVersion, h.flags, h.valid, h.sorted]
    simp only [bind_ok]
    rw [if_neg h.announced, hsizes]
    simp only [bind_ok]
    rw [h.places, bind_ok, ← h.data_eq]
    rfl

theorem placed_of_read {data : ByteArray} {s : TableStream} (h : read data = .ok s) :
    s.Placed := by
  obtain ⟨heapFlags, counts, h⟩ := read_eq_ok_iff.1 h
  have hplaces := places_of_layoutFrom h.places
  refine ⟨_, ?_, fun t => hplaces ▸ lookup_placesFrom_all s.sizes t _⟩
  unfold headerBytes tableCount
  rw [← length_of_readCounts h.listed]
  split
  · exact Nat.le_add_right ..
  · exact Nat.le_refl _

/-- A stream is read as before with other bytes behind its header. -/
theorem read_congr {data data' : ByteArray} {s : TableStream} (h : read data = .ok s)
    (hsize : data'.size = data.size) (hbytes : ∀ i, i < s.headerBytes → data'[i]? = data[i]?) :
    read data' = .ok { s with data := data' } := by
  obtain ⟨heapFlags, counts, h⟩ := read_eq_ok_iff.1 h
  have hword : ∀ width offset, offset + width ≤ headerSize →
      Bytes.word data' width offset = Bytes.word data width offset := fun width offset hle =>
    Bytes.word_congr hsize fun j hj => hbytes _ (by rw [headerBytes]; omega)
  exact read_eq_ok_iff.2 ⟨heapFlags, counts,
    { data_eq := rfl
      long := hsize ▸ h.long
      majorVersion := (hword 1 4 (by decide)).trans h.majorVersion
      minorVersion := (hword 1 5 (by decide)).trans h.minorVersion
      flags := (hword 1 6 (by decide)).trans h.flags
      valid := (hword 8 8 (by decide)).trans h.valid
      sorted := (hword 8 16 (by decide)).trans h.sorted
      announced := h.announced
      listed := (readCounts_congr hsize hbytes).trans h.listed
      sizes := h.sizes
      places := hsize ▸ h.places }⟩

variable {s s' : TableStream}

/-- No place belongs to rows of two tables. -/
theorem Placed.not_covers (hplaced : s.Placed) {t u : TableId} {i : Nat} (hne : t ≠ u)
    (hi : s.covers t i) : s.covers u i = false := by
  obtain ⟨start, -, hplaces⟩ := hplaced
  unfold covers at hi ⊢
  rw [hplaces] at hi ⊢
  split at hi
  · cases hi
  split
  · rfl
  have hi := of_decide_eq_true hi
  refine decide_eq_false fun hu => ?_
  rcases Nat.lt_trichotomy t.number u.number with hlt | heq | hlt
  · have hle := s.sizes.offsetOf_add_le_of_lt hlt
    omega
  · have hsame := TableId.ofNumber?_number t
    rw [heq, TableId.ofNumber?_number u] at hsame
    exact hne (Option.some.inj hsame).symm
  · have hle := s.sizes.offsetOf_add_le_of_lt hlt
    omega

/-! ## 3. Rows of other tables -/

/-- Two streams that differ at most in rows of some tables: all that their headers say is the same,
and so is every byte that belongs to none of these rows. -/
structure SameOutside (free : List TableId) (s s' : TableStream) : Prop where
  header : s' = { s with data := s'.data }
  size : s'.data.size = s.data.size
  bytes : ∀ i, (∀ t ∈ free, s.covers t i = false) → s'.data[i]? = s.data[i]?

theorem data_of_read {data : ByteArray} (h : read data = .ok s) : s.data = data :=
  congrArg TableStream.data (Except.ok.inj (h.symm.trans (read_congr h rfl fun _ _ => rfl)))

/-- **What is written over rows leaves the rest of a stream alone.** -/
theorem sameOutside_of_read {free : List TableId} {data data' : ByteArray} (h : read data = .ok s)
    (hsize : data'.size = data.size)
    (hbytes : ∀ i, (∀ t ∈ free, s.covers t i = false) → data'[i]? = data[i]?) :
    ∃ s', read data' = .ok s' ∧ SameOutside free s s' := by
  have hdata : s.data = data := data_of_read h
  obtain ⟨start, hstart, hplaces⟩ := placed_of_read h
  refine ⟨_, read_congr h hsize fun i hi => hbytes i fun t _ => ?_, rfl, hdata ▸ hsize,
    hdata ▸ hbytes⟩
  unfold covers
  rw [hplaces]
  split
  · rfl
  · exact decide_eq_false fun hcovered => by omega

/-- A table has the same rows in two streams, if it has any. -/
def SameRows (ρ : Type) [TableRow ρ] (s s' : TableStream) : Prop :=
  (s.table ρ = none ∧ s'.table ρ = none) ∨
  ∃ t t', s.table ρ = some t ∧ s'.table ρ = some t' ∧ t'.rowCount = t.rowCount ∧
    ∀ number, t'.get number = t.get number

/-- A table with a place has the announced rows, if the stream holds them all. -/
theorem table_eq_of_place {ρ : Type} [TableRow ρ] {first : Nat}
    (hplace : s.places.lookup (TableRow.table ρ) = some first) :
    s.table ρ = if first + s.sizes.tableBytes (TableRow.table ρ) ≤ s.data.size then
      some ⟨s.sizes, s.data, first, s.sizes.rows (TableRow.table ρ)⟩ else none := by
  unfold table
  rw [hplace]
  show (Table.make ρ s.sizes s.data first (s.sizes.rows (TableRow.table ρ))).toOption = _
  unfold Table.make
  show Except.toOption (if first + s.sizes.tableBytes (TableRow.table ρ) ≤ s.data.size then _
    else _) = _
  split <;> rfl

theorem table_eq_none_of_place {ρ : Type} [TableRow ρ]
    (hplace : s.places.lookup (TableRow.table ρ) = none) : s.table ρ = none := by
  unfold table
  rw [hplace]
  rfl

/-- A table of a stream has the announced rows, and they lie inside the stream. -/
theorem inside_of_table {ρ : Type} [TableRow ρ] {t : Table ρ} (h : s.table ρ = some t) :
    t.rowCount = s.rows (TableRow.table ρ) ∧ t.start + t.size ≤ t.data.size := by
  cases hplace : s.places.lookup (TableRow.table ρ) with
  | none => cases (table_eq_none_of_place hplace).symm.trans h
  | some first =>
    rw [table_eq_of_place hplace] at h
    split at h
    · rename_i hfits
      obtain rfl := Option.some.inj h
      exact ⟨rfl, hfits⟩
    · cases h

/-- A row is made from the bytes of its table alone. -/
theorem get_congr {ρ : Type} [TableRow ρ] {first : Nat} {data' : ByteArray}
    (hsize : data'.size = s.data.size)
    (hbytes : ∀ i, first ≤ i → i < first + s.sizes.tableBytes (TableRow.table ρ) →
      data'[i]? = s.data[i]?) (number : Nat) :
    Table.get (ρ := ρ) ⟨s.sizes, data', first, s.sizes.rows (TableRow.table ρ)⟩ number
      = Table.get ⟨s.sizes, s.data, first, s.sizes.rows (TableRow.table ρ)⟩ number := by
  unfold Table.get
  split
  · rename_i hnumber
    have hlast : number - 1 + 1 ≤ s.sizes.rows (TableRow.table ρ) := by
      rw [Nat.sub_add_cancel hnumber.1]
      exact hnumber.2
    have hrow : (number - 1) * s.sizes.rowSize (TableRow.table ρ)
        + s.sizes.rowSize (TableRow.table ρ) ≤ s.sizes.tableBytes (TableRow.table ρ) := by
      rw [← Nat.succ_mul, TableSizes.tableBytes]
      exact Nat.mul_le_mul_right _ hlast
    have hcells : Cells.read s.sizes data' (TableRow.table ρ).columns
          (first + (number - 1) * s.sizes.rowSize (TableRow.table ρ))
        = Cells.read s.sizes s.data (TableRow.table ρ).columns
          (first + (number - 1) * s.sizes.rowSize (TableRow.table ρ)) := by
      refine Cells.read_congr _ _ _ fun i w hi => Bytes.word_congr hsize fun j hj => ?_
      have hinside : i + w ≤ s.sizes.rowSize (TableRow.table ρ) := hi
      exact hbytes _ (by omega) (by omega)
    exact congrArg (· >>= _) hcells
  · rfl

/-- **All other tables have the same rows.** -/
theorem SameOutside.sameRows {free : List TableId} (h : SameOutside free s s') (hplaced : s.Placed)
    {ρ : Type} [TableRow ρ] (hfree : TableRow.table ρ ∉ free) : SameRows ρ s s' := by
  obtain ⟨hheader, hsize, hbytes⟩ := h
  generalize s'.data = data' at hheader hsize hbytes
  subst hheader
  cases hplace : s.places.lookup (TableRow.table ρ) with
  | none => exact .inl ⟨table_eq_none_of_place hplace, table_eq_none_of_place hplace⟩
  | some first =>
    have htable := table_eq_of_place (s := s) hplace
    have htable' := table_eq_of_place (s := { s with data := data' }) hplace
    dsimp only at htable'
    rw [hsize] at htable'
    by_cases hfits : first + s.sizes.tableBytes (TableRow.table ρ) ≤ s.data.size
    · rw [if_pos hfits] at htable htable'
      refine .inr ⟨_, _, htable, htable', rfl, get_congr hsize fun i hfirst hlast => ?_⟩
      refine hbytes i fun t ht => hplaced.not_covers (t := TableRow.table ρ)
        (fun e => hfree (by rwa [e])) ?_
      unfold covers
      rw [hplace]
      exact decide_eq_true ⟨hfirst, hlast⟩
    · rw [if_neg hfits] at htable htable'
      exact .inl ⟨htable, htable'⟩

end TableStream

end InteropTables
