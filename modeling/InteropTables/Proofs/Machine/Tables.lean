import InteropTables.Proofs.Machine.Sizes

/-!
# The tables stream on a machine of words

The machine keeps the place and the row count of every table in an array by number. The size of a
table is a product of eight bytes, and every table must end inside the stream before its place is
kept.

* `readTables`: the stream in a block; `Tables.Shows`: it shows the stream of the library;
* `placeTables_follows`: the loop over all tables keeps the place behind the last one in bounds;
* `readTables_follows`: **the stream is read as the library reads it**;
* `Tables.Shows.rows_lt`: a table that is announced fits the stream, so it has far fewer rows than
  a word can count.
-/

namespace InteropTables

namespace Machine

/-! ## 1. The header -/

/-- The number in the `width` bytes that stand first behind a place. -/
def fieldAt (data : ByteArray) (width place : Nat) : Run Nat := do
  let (n, _) ← readAt (← behind data place) width 0
  return n

theorem fieldAt_of_le {data : ByteArray} {width place : Nat} (hdata : data.size < wordCount 8)
    (h : place + width ≤ data.size) :
    fieldAt data width place = pure (Bytes.number data width place) := by
  have hsize : (data.extract place data.size).size = data.size - place := Bytes.size_behind
  rw [fieldAt, behind_of_le (by omega), Run.pure_then, readAt_of_le (by omega) (by omega),
    Bytes.number_behind]
  rfl

/-- What the machine keeps of a tables stream. -/
structure Tables where
  majorVersion : Nat
  minorVersion : Nat
  valid : Nat
  sorted : Nat
  info : SizeInfo
  data : ByteArray
  /-- The place of the first row and the row count of every table that has rows, by number. -/
  places : Array (Option (Nat × Nat))

/-- The places with that of one more table, and the place behind it. -/
def placeTable (data : ByteArray) (info : SizeInfo)
    (state : Array (Option (Nat × Nat)) × Nat) (t : TableId) :
    Run (Array (Option (Nat × Nat)) × Nat) := do
  let rows := (← entry info.tables t.number).rows
  if rows = 0 then return state
  else do
    let size ← mul 8 rows (← rowSize info t)
    let stop := state.2 + size
    if wordCount 8 ≤ stop ∨ data.size < stop then .fail .outOfBounds
    else do
      let places ← setEntry state.1 t.number (some (state.2, rows))
      return (places, stop)

/-- The place of the first row, given the place behind the row counts. -/
def rowsStart (heapFlags place : Nat) : Run Nat :=
  if heapFlags.testBit TableStream.extraDataBit then add 8 place 4 else pure place

/-- The tables stream in a block. -/
def readTables (data : ByteArray) : Run Tables :=
  if data.size < TableStream.headerSize then .fail .outOfBounds
  else do
    let heapFlags ← fieldAt data 1 6
    let valid ← fieldAt data 8 8
    if valid = 0 then .fail (.malformed .noTables)
    else do
      let (info, place) ← readInfo data valid heapFlags
      let start ← rowsStart heapFlags place
      let (places, _) ← TableId.all.foldlM (placeTable data info)
        (Array.replicate TableId.all.length none, start)
      let majorVersion ← fieldAt data 1 4
      let minorVersion ← fieldAt data 1 5
      let sorted ← fieldAt data 8 16
      return { majorVersion, minorVersion, valid, sorted, info, data, places }

/-! ## 2. The places of all tables -/

/-- The array shows a stream of the library, whose tables all lie inside the block. -/
structure Tables.Shows (x : Tables) (s : TableStream) : Prop where
  data : x.data = s.data
  size : s.data.size < wordCount 4
  info : x.info.Shows s.sizes
  place : ∀ t : TableId,
    x.places[t.number]? = some ((s.places.lookup t).map fun start => (start, s.rows t))
  inside : ∀ t start, s.places.lookup t = some start →
    start + s.rows t * s.sizes.rowSize t ≤ s.data.size
  absent : ∀ t, s.places.lookup t = none → s.rows t = 0
  nonempty : ∀ t start, s.places.lookup t = some start → 0 < s.rows t

/-- What the machine keeps for a list of places. -/
def placeEntries (s : TableSizes) (found : List (TableId × Nat)) :
    List (Nat × Option (Nat × Nat)) :=
  found.map fun p => (p.1.number, some (p.2, s.rows p.1))

theorem number_inj {t u : TableId} (h : t.number = u.number) : t = u := by
  have ht := t.ofNumber?_number
  rw [h, u.ofNumber?_number] at ht
  exact (Option.some.inj ht).symm

theorem lookup_placeEntries (s : TableSizes) (found : List (TableId × Nat)) (t : TableId) :
    (placeEntries s found).lookup t.number
      = (found.lookup t).map fun start => some (start, s.rows t) := by
  induction found with
  | nil => rfl
  | cons p found ih =>
    obtain ⟨u, start⟩ := p
    show ((u.number, some (start, s.rows u)) :: placeEntries s found).lookup t.number = _
    rw [List.lookup_cons, List.lookup_cons, ih]
    by_cases h : t = u
    · rw [h, beq_self_eq_true, beq_self_eq_true]
      rfl
    · rw [beq_false_of_ne h, beq_false_of_ne fun hnumber => h (number_inj hnumber)]

section Places

variable {data : ByteArray} {info : SizeInfo} {s : TableSizes}

/-- **Every table that is placed ends inside the block**, so the next place is in bounds again. -/
theorem placeTables_follows (hdata : data.size < wordCount 4) (hinfo : info.Shows s)
    (hrows : ∀ t, s.rows t < wordCount 4) (tables : List TableId)
    (places : Array (Option (Nat × Nat))) (hplaces : places.size = TableId.all.length)
    (start : Nat) (hstart : start ≤ data.size + 4) :
    Follows (fun a found => a.1 = setAll places (placeEntries s found) ∧
        found.map (·.1) = tables.filter (s.rows · ≠ 0) ∧
        ∀ p ∈ found, p.2 + s.rows p.1 * s.rowSize p.1 ≤ data.size)
      (tables.foldlM (placeTable data info) (places, start))
      (TableStream.layoutFrom s data.size tables start) := by
  have hfour := wordCount_four
  have height := wordCount_eight
  induction tables generalizing places start with
  | nil => exact follows_pure ⟨rfl, rfl, fun _ h => nomatch h⟩
  | cons t tables ih =>
    rw [List.foldlM_cons, placeTable, entry_of_some (hinfo.tables t), Run.pure_then,
      TableStream.layoutFrom]
    dsimp only
    by_cases hnone : s.rows t = 0
    · rw [if_pos hnone, if_pos hnone, Run.pure_then,
        List.filter_cons_of_neg (by rw [hnone]; decide)]
      exact ih places hplaces start hstart
    have hsize : s.rows t * s.rowSize t ≤ s.rows t * 36 :=
      Nat.mul_le_mul_left _ (rowSize_le s t)
    have hcount := hrows t
    have ht : t.number < places.size := by
      rw [hplaces]
      exact t.number_lt
    rw [if_neg hnone, if_neg hnone, rowSize_eq hinfo, Run.pure_then, mul_of_lt (by omega),
      Run.pure_then, List.filter_cons_of_pos (by rw [decide_eq_true_iff]; exact hnone)]
    generalize hstop : start + s.rows t * s.rowSize t = stop
    by_cases hinside : stop ≤ data.size
    · rw [if_neg (by omega), if_pos hinside, setEntry_of_lt ht, Run.pure_then, Run.pure_then]
      refine (ih _ (by rw [Array.size_setIfInBounds]; exact hplaces) stop
        (by omega)).map_right (g := fun found => (t, start) :: found) fun a found ha => ?_
      obtain ⟨hset, hkeys, hends⟩ := ha
      refine ⟨hset, ?_, fun p hp => ?_⟩
      · rw [List.map_cons, hkeys]
      · rcases List.mem_cons.1 hp with rfl | hp
        · show start + s.rows t * s.rowSize t ≤ data.size
          rwa [hstop]
        · exact hends p hp
    · rw [if_pos (by omega), if_neg hinside]
      exact follows_fail _

end Places

/-! ## 3. The whole stream -/

theorem library_tables (data : ByteArray) : TableStream.read data =
    if data.size < TableStream.headerSize then .error .outOfBounds else do
      let majorVersion ← Bytes.word data 1 4
      let minorVersion ← Bytes.word data 1 5
      let heapFlags ← Bytes.word data 1 6
      let valid ← Bytes.word data 8 8
      let sorted ← Bytes.word data 8 16
      if valid = 0 then .error (.malformed .noTables) else do
        let (sizes, place) ← TableSizes.read data valid heapFlags
        let start := if heapFlags.testBit TableStream.extraDataBit then place + 4 else place
        let places ← TableStream.layoutFrom sizes data.size TableId.all start
        return { data, majorVersion, minorVersion, valid, sorted, sizes, places } := rfl

theorem getElem?_setAll_places (s : TableSizes) {found : List (TableId × Nat)}
    (hfound : found.map (·.1) = TableId.all.filter (s.rows · ≠ 0)) (t : TableId) :
    (setAll (Array.replicate TableId.all.length none) (placeEntries s found))[t.number]?
      = some ((found.lookup t).map fun start => (start, s.rows t)) := by
  have hnodup : ((placeEntries s found).map (·.1)).Nodup := by
    have hmap : (placeEntries s found).map (·.1) = (found.map (·.1)).map TableId.number := by
      rw [placeEntries, List.map_map, List.map_map]
      rfl
    rw [hmap, hfound]
    refine List.Pairwise.map _ (fun _ _ h => Nat.ne_of_lt h)
      (TableId.pairwise_number_all.filter _)
  have ht : t.number < (Array.replicate TableId.all.length (none : Option (Nat × Nat))).size := by
    rw [Array.size_replicate]
    exact t.number_lt
  rw [getElem?_setAll hnodup ht, lookup_placeEntries, Array.getElem?_replicate,
    if_pos (by rwa [Array.size_replicate] at ht)]
  cases found.lookup t <;> rfl

/-- **The stream is read as the library reads it.** -/
theorem readTables_follows {data : ByteArray} (hdata : data.size < wordCount 4) :
    Follows Tables.Shows (readTables data) (TableStream.read data) := by
  have hfour := wordCount_four
  have height := wordCount_eight
  have hword : data.size < wordCount 8 := by omega
  rw [readTables, library_tables]
  refine .check fun hshort => ?_
  have hsize : 24 ≤ data.size := Nat.le_of_not_lt hshort
  have hread : ∀ width place, place + width ≤ 24 →
      fieldAt data width place = pure (Bytes.number data width place) ∧
      Bytes.word data width place = .ok (Bytes.number data width place) :=
    fun width place h => ⟨fieldAt_of_le hword (by omega), Bytes.word_of_le (by omega)⟩
  simp only [hread, Run.pure_then, bind_ok, Nat.reduceAdd, Nat.reduceLeDiff]
  generalize Bytes.number data 8 8 = valid
  generalize Bytes.number data 1 6 = heapFlags
  refine .check fun _ => ?_
  refine (readInfo_follows hdata hsize valid heapFlags).bind fun a b _ hab => ?_
  obtain ⟨info, place⟩ := a
  obtain ⟨sizes, behindCounts⟩ := b
  obtain ⟨hinfo, rfl, hplace, hrows⟩ := hab
  dsimp only at hinfo hplace hrows ⊢
  have hextra : rowsStart heapFlags place
      = pure (if heapFlags.testBit TableStream.extraDataBit = true then place + 4 else place) := by
    rw [rowsStart]
    split
    · exact add_of_lt (by omega)
    · rfl
  rw [hextra, Run.pure_then]
  have hstart : (if heapFlags.testBit TableStream.extraDataBit = true then place + 4 else place)
      ≤ data.size + 4 := by
    split <;> omega
  refine (placeTables_follows hdata hinfo hrows TableId.all _ Array.size_replicate _ hstart).bind
    fun a found _ ha => ?_
  obtain ⟨hset, hkeys, hends⟩ := ha
  refine follows_pure ⟨rfl, hdata, hinfo, fun t => ?_, fun t start hlookup => ?_,
    fun t hlookup => ?_, fun t start hlookup => ?_⟩
  · dsimp only
    rw [hset]
    exact getElem?_setAll_places sizes hkeys t
  · exact hends (t, start) (mem_of_lookup hlookup)
  · show sizes.rows t = 0
    by_cases hzero : sizes.rows t = 0
    · exact hzero
    · have hmem : t ∈ found.map (·.1) := by
        rw [hkeys, List.mem_filter]
        exact ⟨t.mem_all, decide_eq_true hzero⟩
      obtain ⟨p, hp, rfl⟩ := List.mem_map.1 hmem
      exact absurd rfl (bne_iff_ne.1 (List.lookup_eq_none_iff.1 hlookup p hp))
  · have hmem : t ∈ found.map (·.1) := List.mem_map.2 ⟨(t, start), mem_of_lookup hlookup, rfl⟩
    rw [hkeys, List.mem_filter] at hmem
    exact Nat.pos_of_ne_zero (of_decide_eq_true hmem.2)

/-- A row takes two bytes of the stream at least. -/
theorem Tables.Shows.rows_lt {x : Tables} {s : TableStream} (h : x.Shows s) (t : TableId) :
    s.rows t + 1 < wordCount 4 := by
  have hsize := h.size
  have hfour := wordCount_four
  cases hlookup : s.places.lookup t with
  | none =>
    have := h.absent t hlookup
    omega
  | some start =>
    have hinside := h.inside t start hlookup
    have htwo := Nat.mul_le_mul_left (s.rows t) (two_le_rowSize s.sizes t)
    omega

end Machine

end InteropTables
