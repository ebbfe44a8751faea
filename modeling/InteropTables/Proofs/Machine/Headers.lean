import InteropTables.Proofs.Machine.Blocks
import InteropTables.Metadata.File

/-!
# Headers on a machine of words

The way from an image to the root of its metadata: the sections map an address to a place of the
file, the runtime header stands at one place and the metadata at another. All numbers of an image
that come from its headers are numbers of four bytes (`Image.Narrow`); of the size of the file
nothing is assumed.

* `offsetOf`, `readHeader`, `readRoot`: the three readers;
* `offsetOf_follows`: **an address has its place, below twice the span of a word**;
* `readHeader_follows`, `readRoot_follows`: **both headers are read as the library reads them**; the
  names of streams are short, so the place in the directory never leaves its word;
* `Image.narrow_ofBytes`: the images of the library are narrow.
-/

namespace InteropTables

/-! ## 1. Narrow images -/

/-- All numbers of a section are numbers of four bytes. -/
structure Section.Narrow (s : Section) : Prop where
  virtualSize : s.virtualSize < wordCount 4
  virtualAddress : s.virtualAddress < wordCount 4
  rawSize : s.rawSize < wordCount 4
  rawPointer : s.rawPointer < wordCount 4

/-- All numbers that an image has from its headers are numbers of four bytes. -/
structure Image.Narrow (image : Image) : Prop where
  runtimeAddress : image.runtimeAddress < wordCount 4
  runtimeSize : image.runtimeSize < wordCount 4
  sections : ∀ s ∈ image.sections, s.Narrow

theorem Bytes.word?_lt {data : ByteArray} {width offset n : Nat}
    (h : Bytes.word? data width offset = some n) : n < wordCount width := by
  obtain ⟨found, hfound, rfl⟩ := Option.map_eq_some_iff.1 h
  have hlt := littleEndian_lt (toList found)
  rwa [length_toList, size_of_slice? hfound] at hlt

theorem Bytes.word_lt {data : ByteArray} {width offset n : Nat}
    (h : Bytes.word data width offset = .ok n) : n < wordCount width := by
  unfold Bytes.word at h
  cases hword : Bytes.word? data width offset with
  | none =>
    rw [hword] at h
    cases h
  | some m =>
    rw [hword] at h
    obtain rfl := Except.ok.inj h
    exact Bytes.word?_lt hword

theorem mem_of_mapM_some {α β : Type} {f : α → Option β} {l : List α} {m : List β}
    (h : l.mapM f = some m) {b : β} (hb : b ∈ m) : ∃ a ∈ l, f a = some b := by
  induction l generalizing m with
  | nil =>
    obtain rfl : [] = m := Option.some.inj h
    cases hb
  | cons a l ih =>
    rw [List.mapM_cons] at h
    obtain ⟨c, hc, h⟩ := Option.bind_eq_some_iff.1 h
    obtain ⟨cs, hcs, h⟩ := Option.bind_eq_some_iff.1 h
    obtain rfl : c :: cs = m := Option.some.inj h
    rcases List.mem_cons.1 hb with rfl | hb
    · exact ⟨a, List.mem_cons_self .., hc⟩
    · obtain ⟨a', ha', hf⟩ := ih hcs hb
      exact ⟨a', List.mem_cons_of_mem _ ha', hf⟩

theorem Section.narrow_read? {data : ByteArray} {offset : Nat} {s : Section}
    (h : Section.read? data offset = some s) : s.Narrow := by
  obtain ⟨_, _, h⟩ := Option.bind_eq_some_iff.1 h
  obtain ⟨_, _, h⟩ := Option.bind_eq_some_iff.1 h
  obtain ⟨_, _, h⟩ := Option.bind_eq_some_iff.1 h
  obtain ⟨_, hvirtualSize, h⟩ := Option.bind_eq_some_iff.1 h
  obtain ⟨_, hvirtualAddress, h⟩ := Option.bind_eq_some_iff.1 h
  obtain ⟨_, hrawSize, h⟩ := Option.bind_eq_some_iff.1 h
  obtain ⟨_, hrawPointer, h⟩ := Option.bind_eq_some_iff.1 h
  obtain rfl := Option.some.inj h
  exact ⟨Bytes.word?_lt hvirtualSize, Bytes.word?_lt hvirtualAddress, Bytes.word?_lt hrawSize,
    Bytes.word?_lt hrawPointer⟩

/-- A directory of a header. -/
theorem OptionalHeader.mem_directories {data : ByteArray} {offset : Nat} {header : OptionalHeader}
    (h : OptionalHeader.read? data offset = some header) {directory : Nat × Nat}
    (hmem : directory ∈ header.directories) :
    ∃ place, Bytes.word? data 4 place = some directory.1 ∧
      Bytes.word? data 4 (place + 4) = some directory.2 := by
  obtain ⟨_, _, h⟩ := Option.bind_eq_some_iff.1 h
  dsimp only at h
  split at h
  all_goals
    obtain ⟨fixedSize, hfixed, h⟩ := Option.bind_eq_some_iff.1 h
    cases hfixed
  all_goals
    obtain ⟨_, _, h⟩ := Option.bind_eq_some_iff.1 h
    obtain ⟨_, _, h⟩ := Option.bind_eq_some_iff.1 h
    obtain ⟨_, _, h⟩ := Option.bind_eq_some_iff.1 h
    obtain ⟨_, hdirectories, h⟩ := Option.bind_eq_some_iff.1 h
    obtain ⟨_, _, h⟩ := Option.bind_eq_some_iff.1 h
    obtain rfl := Option.some.inj h
    obtain ⟨i, _, hentry⟩ := mem_of_mapM_some hdirectories hmem
    obtain ⟨_, haddress, hentry⟩ := Option.bind_eq_some_iff.1 hentry
    obtain ⟨_, hsize, hentry⟩ := Option.bind_eq_some_iff.1 hentry
    obtain rfl := Option.some.inj hentry
    exact ⟨_, haddress, hsize⟩

/-- The last steps of reading the headers: each section has been read. -/
theorem ImageHeaders.sections_of_bind {p : Prop} [Decidable p] {count : Nat}
    {f : Nat → Option Section} {optionalHeader : Option OptionalHeader} {headers : ImageHeaders}
    (h : (do
      guard p
      let sections ← (List.range count).mapM f
      return { optionalHeader, sections }) = some headers) :
    headers.optionalHeader = optionalHeader ∧ ∀ s ∈ headers.sections, ∃ i, f i = some s := by
  obtain ⟨_, _, h⟩ := Option.bind_eq_some_iff.1 h
  obtain ⟨_, hsections, h⟩ := Option.bind_eq_some_iff.1 h
  obtain rfl := Option.some.inj h
  refine ⟨rfl, fun s hs => ?_⟩
  obtain ⟨i, _, hread⟩ := mem_of_mapM_some hsections hs
  exact ⟨i, hread⟩

/-- Sections and optional header of an image stand somewhere in the file. -/
theorem ImageHeaders.parts_of_read? {data : ByteArray} {headers : ImageHeaders}
    (h : ImageHeaders.read? data = some headers) :
    (∀ s ∈ headers.sections, ∃ place, Section.read? data place = some s) ∧
    ∀ optionalHeader, headers.optionalHeader = some optionalHeader →
      ∃ place, OptionalHeader.read? data place = some optionalHeader := by
  -- Nine steps stand in front of the optional header; only the last of them gives a number that
  -- decides about the steps behind it.
  obtain ⟨_, _, h⟩ := Option.bind_eq_some_iff.1 h
  obtain ⟨_, _, h⟩ := Option.bind_eq_some_iff.1 h
  obtain ⟨_, _, h⟩ := Option.bind_eq_some_iff.1 h
  obtain ⟨_, _, h⟩ := Option.bind_eq_some_iff.1 h
  obtain ⟨_, _, h⟩ := Option.bind_eq_some_iff.1 h
  obtain ⟨_, _, h⟩ := Option.bind_eq_some_iff.1 h
  obtain ⟨_, _, h⟩ := Option.bind_eq_some_iff.1 h
  obtain ⟨_, _, h⟩ := Option.bind_eq_some_iff.1 h
  obtain ⟨optionalSize, _, h⟩ := Option.bind_eq_some_iff.1 h
  dsimp only at h
  by_cases hempty : optionalSize = 0
  · rw [if_pos hempty] at h
    obtain ⟨hnone, hsections⟩ := ImageHeaders.sections_of_bind h
    refine ⟨fun s hs => ?_, fun optionalHeader hsome => ?_⟩
    · obtain ⟨_, hread⟩ := hsections s hs
      exact ⟨_, hread⟩
    · rw [hnone] at hsome
      cases hsome
  · rw [if_neg hempty] at h
    obtain ⟨_, hoptional, h⟩ := Option.bind_eq_some_iff.1 h
    obtain ⟨hfound, hsections⟩ := ImageHeaders.sections_of_bind h
    refine ⟨fun s hs => ?_, fun optionalHeader hsome => ?_⟩
    · obtain ⟨_, hread⟩ := hsections s hs
      exact ⟨_, hread⟩
    · rw [hfound] at hsome
      obtain ⟨found, hread, rfl⟩ := Option.map_eq_some_iff.1 hoptional
      obtain rfl := Option.some.inj hsome
      exact ⟨_, hread⟩

/-- **The images of the library are narrow.** -/
theorem Image.narrow_ofBytes {data : ByteArray} {image : Image}
    (h : Image.ofBytes data = .ok image) : image.Narrow := by
  rw [Image.ofBytes] at h
  split at h
  · cases h
  · split at h
    · cases h
    · rename_i headers hheaders
      obtain ⟨hsections, hoptional⟩ := ImageHeaders.parts_of_read? hheaders
      split at h
      · split at h
        · cases h
        · cases h
        · rename_i optionalHeader address size hsome hruntime
          obtain rfl := Except.ok.inj h
          obtain ⟨_, hread⟩ := hoptional optionalHeader hsome
          have hdirectory : headers.runtimeHeader? = optionalHeader.runtimeHeader? := by
            rw [ImageHeaders.runtimeHeader?, hsome]
            rfl
          rw [hdirectory, OptionalHeader.runtimeHeader?] at hruntime
          have hmem := List.mem_of_getElem? (Option.eq_some_of_filter_eq_some hruntime)
          obtain ⟨_, haddress, hsize⟩ := OptionalHeader.mem_directories hread hmem
          refine ⟨Bytes.word?_lt haddress, Bytes.word?_lt hsize, fun s hs => ?_⟩
          obtain ⟨_, hsection⟩ := hsections s hs
          exact Section.narrow_read? hsection
      · cases h

/-! ## 2. Addresses and the runtime header -/

namespace Machine

/-- The place of an address by the sections, in their order. -/
def offsetIn : (sections : List Section) → (address : Nat) → Run Nat
  | [], address => .fail (.malformed (.addressUnmapped address))
  | s :: rest, address =>
    if wordCount 4 ≤ s.virtualAddress + s.virtualSize then
      .fail (.malformed (.sectionOverflow s.virtualAddress s.virtualSize))
    else if s.covers s.virtualSize address then do
      let inside ← sub address s.virtualAddress
      add 8 inside s.rawPointer
    else offsetIn rest address

/-- The place in the file of an address. -/
def offsetOf (image : Image) (address : Nat) : Run Nat :=
  if wordCount 4 ≤ address then .fail (.malformed (.addressTooLarge address))
  else offsetIn image.sections address

theorem offsetIn_follows {sections : List Section} (hsections : ∀ s ∈ sections, s.Narrow)
    {address : Nat} (haddress : address < wordCount 4) :
    Follows (fun a b => a = b ∧ b < 2 * wordCount 4) (offsetIn sections address)
      (Image.offsetIn sections address) := by
  induction sections with
  | nil => exact follows_fail _
  | cons s rest ih =>
    rw [offsetIn, Image.offsetIn]
    refine .check fun _ => ?_
    refine .ite (fun hcovers => ?_) fun _ => ?_
    · have hle : s.virtualAddress ≤ address := by
        rw [Section.covers, Bool.and_eq_true, decide_eq_true_eq] at hcovers
        exact hcovers.1
      have hpointer := (hsections s (List.mem_cons_self ..)).rawPointer
      have hplace : address - s.virtualAddress + s.rawPointer < 2 * wordCount 4 := by omega
      have hword : address - s.virtualAddress + s.rawPointer < wordCount 8 := by
        rw [wordCount_four] at hplace
        rw [wordCount_eight]
        omega
      rw [sub_of_le hle, Run.pure_then, add_of_lt hword]
      exact follows_pure ⟨rfl, hplace⟩
    · exact ih fun s hs => hsections s (List.mem_cons_of_mem _ hs)

/-- **An address has its place, below twice the span of a word.** -/
theorem offsetOf_follows {image : Image} (himage : image.Narrow) (address : Nat) :
    Follows (fun a b => a = b ∧ b < 2 * wordCount 4) (offsetOf image address)
      (image.offsetOf address) := by
  rw [offsetOf, Image.offsetOf]
  exact .check fun h => offsetIn_follows himage.sections (Nat.lt_of_not_le h)

/-- The runtime header at the start of a block. -/
def readHeader (data : ByteArray) : Run RuntimeHeader :=
  if data.size < RuntimeHeader.size then .fail .outOfBounds
  else do
    let (announced, place) ← readAt data 4 0
    if announced ≠ RuntimeHeader.size then .fail (.malformed (.headerSize announced))
    else do
      let (majorVersion, place) ← readAt data 2 place
      let (minorVersion, place) ← readAt data 2 place
      let (metadataAddress, place) ← readAt data 4 place
      let (metadataSize, place) ← readAt data 4 place
      if metadataAddress = 0 ∨ metadataSize = 0 then
        .fail (.malformed (.noMetadata metadataAddress metadataSize))
      else do
        let (flags, place) ← readAt data 4 place
        let (entryPoint, _) ← readAt data 4 place
        return { majorVersion, minorVersion, metadataAddress, metadataSize, flags, entryPoint }

/-- The library looks at the addresses before it reads the rest. -/
theorem library_header (data : ByteArray) : RuntimeHeader.read data =
    if data.size < RuntimeHeader.size then .error .outOfBounds else do
      let announced ← Bytes.word data 4 0
      if announced ≠ RuntimeHeader.size then .error (.malformed (.headerSize announced)) else do
        let metadataAddress ← Bytes.word data 4 8
        let metadataSize ← Bytes.word data 4 12
        if metadataAddress = 0 ∨ metadataSize = 0 then
          .error (.malformed (.noMetadata metadataAddress metadataSize))
        else do
          let majorVersion ← Bytes.word data 2 4
          let minorVersion ← Bytes.word data 2 6
          let flags ← Bytes.word data 4 16
          let entryPoint ← Bytes.word data 4 20
          return { majorVersion, minorVersion, metadataAddress, metadataSize, flags, entryPoint } :=
  rfl

/-- **The runtime header is read as the library reads it**; the size of the metadata that it
announces is a number of four bytes. -/
theorem readHeader_follows {data : ByteArray} (hdata : data.size < wordCount 8) :
    Follows (fun a b => a = b ∧ b.metadataSize < wordCount 4) (readHeader data)
      (RuntimeHeader.read data) := by
  rw [readHeader, library_header]
  refine .check fun hshort => ?_
  have hsize : 72 ≤ data.size := Nat.le_of_not_lt hshort
  have hread : ∀ width place, place + width ≤ 24 →
      readAt data width place = pure (Bytes.number data width place, place + width) ∧
      Bytes.word data width place = .ok (Bytes.number data width place) :=
    fun width place h => ⟨readAt_of_le hdata (by omega), Bytes.word_of_le (by omega)⟩
  rw [(hread 4 0 (by omega)).1, (hread 4 0 (by omega)).2]
  simp only [Run.pure_then, bind_ok]
  refine .check fun _ => ?_
  simp only [hread, Run.pure_then, bind_ok, Nat.reduceAdd, Nat.reduceLeDiff]
  exact .check fun _ => follows_pure ⟨rfl, Bytes.number_lt (by omega)⟩

/-! ## 3. The root and its directory -/

/-- The entry at the front of a block. -/
def readEntry (data : ByteArray) : Run StreamEntry :=
  if data.size < 9 then .fail .outOfBounds
  else do
    let (offset, place) ← readAt data 4 0
    let (size, _) ← readAt data 4 place
    let area ← part data 8 (min data.size (8 + StreamEntry.maxNameSize))
    match Bytes.findZero area 0 with
    | none => .fail (.malformed .streamNameOpen)
    | some 0 => .fail (.malformed .streamNameEmpty)
    | some length => do
      let name ← part area 0 length
      return { offset, size, name := Lossy.decode name }

/-- The bytes of an entry in the directory. -/
def encodedSize (e : StreamEntry) : Run Nat := do
  let terminated ← add 8 e.name.utf8ByteSize 1
  let filled ← add 8 terminated 3
  add 8 8 (filled / 4 * 4)

/-- `count` entries that stand one behind the other, behind those already in `entries` (last one
first). -/
def readEntriesOnto (data : ByteArray) :
    (count place : Nat) → (entries : List StreamEntry) → Run (List StreamEntry)
  | 0, _, entries => pure entries.reverse
  | count + 1, place, entries =>
    if data.size ≤ place then .fail .outOfBounds
    else do
      let entry ← readEntry (← behind data place)
      if wordCount 4 ≤ entry.offset + entry.size then
        .fail (.malformed (.streamOverflow entry.offset entry.size))
      else if data.size < entry.offset + entry.size then .fail .outOfBounds
      else do
        let place ← add 8 place (← encodedSize entry)
        readEntriesOnto data count place (entry :: entries)

/-- The root at the start of the metadata. -/
def readRoot (data : ByteArray) : Run MetadataRoot :=
  if data.size < 20 then .fail .outOfBounds
  else do
    let (found, _) ← readAt data 4 0
    if found ≠ MetadataRoot.signature then .fail (.malformed (.rootSignature found))
    else do
      let (majorVersion, place) ← readAt data 2 4
      let (minorVersion, place) ← readAt data 2 place
      let place ← add 8 place 4
      let (versionSize, place) ← readAt data 4 place
      let stop ← add 8 place versionSize
      if data.size < stop then .fail .outOfBounds
      else do
        let version ← part data place stop
        let text ← part version 0 ((Bytes.findZero version 0).getD version.size)
        let place ← add 8 stop 2
        let (count, place) ← readAt data 2 place
        let least ← mul 8 count MetadataRoot.minEntrySize
        if count = 0 ∨ data.size < least then .fail (.malformed (.streamCount count))
        else do
          let streams ← readEntriesOnto data count place []
          return { majorVersion, minorVersion, version := Lossy.decode text, streams }

section Root

variable {data : ByteArray}

theorem library_entry (data : ByteArray) (place : Nat) : StreamEntry.read data place =
    if data.size < place + 9 then .error .outOfBounds else do
      let offset ← Bytes.word data 4 place
      let size ← Bytes.word data 4 (place + 4)
      let area := data.extract (place + 8) (place + 8 + StreamEntry.maxNameSize)
      match Bytes.findZero area 0 with
      | none => .error (.malformed .streamNameOpen)
      | some 0 => .error (.malformed .streamNameEmpty)
      | some length => return { offset, size, name := Lossy.decode (area.extract 0 length) } :=
  rfl

/-- What ends beyond a block ends with it. -/
theorem extract_min (data : ByteArray) (start stop : Nat) :
    data.extract start (min stop data.size) = data.extract start stop := by
  have hall : data.extract 0 data.size = data := ByteArray.extract_zero_size
  have h := ByteArray.extract_extract (a := data) (i := 0) (j := data.size) (k := start) (l := stop)
  rw [hall, Nat.zero_add, Nat.zero_add] at h
  exact h.symm

/-- An entry has a place and a size of four bytes each, and a short name. -/
theorem readEntry_follows (hdata : data.size < wordCount 8) {place : Nat}
    (hplace : place < data.size) :
    Follows (fun a b => a = b ∧ b.name.utf8ByteSize ≤ 4 * StreamEntry.maxNameSize)
      (readEntry (data.extract place data.size)) (StreamEntry.read data place) := by
  have hrest : (data.extract place data.size).size = data.size - place := Bytes.size_behind
  rw [readEntry, library_entry]
  by_cases hshort : data.size < place + 9
  · rw [if_pos (by omega), if_pos hshort]
    exact follows_fail _
  have hoffset : readAt (data.extract place data.size) 4 0
      = pure (Bytes.number data 4 place, 4) := by
    rw [readAt_of_le (by omega) (by omega), Bytes.number_behind, Nat.add_zero, Nat.zero_add]
  have hsize : readAt (data.extract place data.size) 4 4
      = pure (Bytes.number data 4 (place + 4), 8) := by
    rw [readAt_of_le (by omega) (by omega), Bytes.number_behind]
  have harea : (data.extract place data.size).extract 8
      (min (data.extract place data.size).size (8 + StreamEntry.maxNameSize))
        = data.extract (place + 8) (place + 8 + StreamEntry.maxNameSize) := by
    have hstop : min (place + min (data.extract place data.size).size (8 + StreamEntry.maxNameSize))
        data.size = min (place + 8 + StreamEntry.maxNameSize) data.size := by omega
    rw [ByteArray.extract_extract, hstop, extract_min]
  rw [if_neg (by omega), if_neg hshort, hoffset, Bytes.word_of_le (by omega)]
  simp only [Run.pure_then, bind_ok]
  rw [hsize, Bytes.word_of_le (by omega),
    part_of_le (by rw [hrest]; omega) (Nat.min_le_left _ _), harea]
  simp only [Run.pure_then, bind_ok]
  generalize hareaName : data.extract (place + 8) (place + 8 + StreamEntry.maxNameSize) = area
  have hareaSize : area.size ≤ StreamEntry.maxNameSize := by
    rw [← hareaName, ByteArray.size_extract]
    omega
  rcases hzero : Bytes.findZero area 0 with _ | _ | length
  · exact follows_fail _
  · exact follows_fail _
  · have hlength := (Bytes.findZero_lt hzero).2
    let entry (name : ByteArray) : StreamEntry :=
      ⟨Bytes.number data 4 place, Bytes.number data 4 (place + 4), Lossy.decode name⟩
    show Follows _ (part area 0 (length + 1) >>= fun name => pure (entry name))
      (.ok (entry (area.extract 0 (length + 1))))
    rw [part_of_le (Nat.zero_le _) (Nat.le_of_lt hlength), Run.pure_then]
    refine follows_pure ⟨rfl, Nat.le_trans (Lossy.utf8ByteSize_decode_le _) ?_⟩
    rw [ByteArray.size_extract]
    omega

/-- An entry with a short name takes few bytes. -/
theorem encodedSize_eq {e : StreamEntry} (h : e.name.utf8ByteSize ≤ 4 * StreamEntry.maxNameSize) :
    encodedSize e = pure e.encodedSize ∧ e.encodedSize ≤ 140 := by
  have hname : e.name.utf8ByteSize ≤ 128 := h
  have hsize : e.encodedSize = 8 + (e.name.utf8ByteSize + 1 + 3) / 4 * 4 := rfl
  have hfits : ∀ a b, a + b ≤ 200 → add 8 a b = pure (a + b) := by
    intro a b hab
    refine add_of_lt ?_
    rw [wordCount_eight]
    omega
  refine ⟨?_, by omega⟩
  rw [encodedSize, hfits _ _ (by omega), Run.pure_then, hfits _ _ (by omega), Run.pure_then,
    hfits _ _ (by omega), hsize]

theorem readEntriesOnto_follows (hdata : data.size < wordCount 4) (count place : Nat)
    (entries : List StreamEntry) :
    Follows Eq (readEntriesOnto data count place entries)
      (MetadataRoot.readEntriesOnto data count place entries) := by
  have hword : data.size < wordCount 8 := by
    rw [wordCount_four] at hdata
    rw [wordCount_eight]
    omega
  induction count generalizing place entries with
  | zero => exact follows_pure rfl
  | succ count ih =>
    rw [readEntriesOnto, MetadataRoot.readEntriesOnto]
    by_cases hplace : data.size ≤ place
    · have hread : StreamEntry.read data place = .error .outOfBounds := by
        rw [library_entry, if_pos (by omega)]
      rw [if_pos hplace, hread]
      exact follows_fail _
    rw [if_neg hplace, behind_of_le (by omega), Run.pure_then]
    refine (readEntry_follows hword (by omega)).bind fun a entry _ hentry => ?_
    obtain ⟨rfl, hname⟩ := hentry
    obtain ⟨hencoded, hsmall⟩ := encodedSize_eq hname
    rw [MetadataRoot.checkEntry]
    by_cases hover : wordCount 4 ≤ a.offset + a.size
    · rw [if_pos hover, if_pos hover]
      exact follows_fail _
    rw [if_neg hover, if_neg hover]
    by_cases hinside : a.offset + a.size ≤ data.size
    · have hadd : add 8 place a.encodedSize = pure (place + a.encodedSize) := by
        refine add_of_lt ?_
        rw [wordCount_four] at hdata
        rw [wordCount_eight]
        omega
      rw [if_neg (by omega), if_pos hinside, hencoded, Run.pure_then, hadd, Run.pure_then, bind_ok]
      exact ih _ _
    · rw [if_pos (by omega), if_neg hinside]
      exact follows_fail _

theorem library_root (data : ByteArray) : MetadataRoot.read data =
    if data.size < 20 then .error .outOfBounds else do
      let found ← Bytes.word data 4 0
      if found ≠ MetadataRoot.signature then .error (.malformed (.rootSignature found)) else do
        let majorVersion ← Bytes.word data 2 4
        let minorVersion ← Bytes.word data 2 6
        let versionSize ← Bytes.word data 4 12
        let version ← Bytes.slice data 16 versionSize
        let count ← Bytes.word data 2 (16 + versionSize + 2)
        if count = 0 ∨ data.size < count * MetadataRoot.minEntrySize then
          .error (.malformed (.streamCount count))
        else do
          let streams ← MetadataRoot.readEntriesOnto data count (16 + versionSize + 4) []
          return {
            majorVersion, minorVersion, version := Lossy.decode (MetadataRoot.untilZero version)
            streams } :=
  rfl

/-- The text in front of the first zero byte lies inside its block. -/
theorem part_untilZero (version : ByteArray) :
    part version 0 ((Bytes.findZero version 0).getD version.size)
      = pure (MetadataRoot.untilZero version) := by
  rw [MetadataRoot.untilZero]
  rcases hzero : Bytes.findZero version 0 with _ | length
  · rw [Option.getD_none, part_of_le (Nat.zero_le _) (Nat.le_refl _),
      ByteArray.extract_zero_size]
  · rw [Option.getD_some, part_of_le (Nat.zero_le _) (Nat.le_of_lt (Bytes.findZero_lt hzero).2)]

/-- **The root is read as the library reads it.** -/
theorem readRoot_follows (hdata : data.size < wordCount 4) :
    Follows Eq (readRoot data) (MetadataRoot.read data) := by
  have hfour := wordCount_four
  have height := wordCount_eight
  have hword : data.size < wordCount 8 := by omega
  rw [readRoot, library_root]
  refine .check fun hshort => ?_
  have hread : ∀ width place, place + width ≤ 20 →
      readAt data width place = pure (Bytes.number data width place, place + width) ∧
      Bytes.word data width place = .ok (Bytes.number data width place) :=
    fun width place h => ⟨readAt_of_le hword (by omega), Bytes.word_of_le (by omega)⟩
  rw [(hread 4 0 (by omega)).1, (hread 4 0 (by omega)).2]
  simp only [Run.pure_then, bind_ok]
  refine .check fun _ => ?_
  have hversion : Bytes.number data 4 12 < wordCount 4 := Bytes.number_lt (by omega)
  have hskip : add 8 8 4 = pure 12 := rfl
  simp only [hread, hskip, Run.pure_then, bind_ok, Nat.reduceAdd, Nat.reduceLeDiff]
  generalize Bytes.number data 4 12 = versionSize at hversion ⊢
  rw [add_of_lt (by omega), Run.pure_then]
  by_cases hinside : 16 + versionSize ≤ data.size
  · have hslice : Bytes.slice data 16 versionSize = .ok (data.extract 16 (16 + versionSize)) := by
      rw [Bytes.slice, Bytes.slice?, if_pos hinside]
      rfl
    rw [if_neg (by omega), part_of_le (by omega) hinside, hslice]
    simp only [Run.pure_then, bind_ok, part_untilZero]
    rw [add_of_lt (by omega), Run.pure_then]
    refine (readAt_follows hword 2 (16 + versionSize + 2)).bind fun a count _ hcount => ?_
    obtain ⟨rfl, hsmall, _⟩ := hcount
    have hleast : count * MetadataRoot.minEntrySize < wordCount 8 := by
      have htwo : wordCount 2 = 65536 := rfl
      have hnine : MetadataRoot.minEntrySize = 9 := rfl
      rw [hnine]
      omega
    dsimp only
    rw [mul_of_lt hleast, Run.pure_then]
    refine .check fun _ => ?_
    exact (readEntriesOnto_follows hdata _ _ _).bind_eq fun streams _ => follows_pure rfl
  · have hslice : Bytes.slice data 16 versionSize = .error .outOfBounds := by
      rw [Bytes.slice, Bytes.slice?, if_neg hinside]
      rfl
    rw [if_pos (by omega), hslice]
    exact follows_fail _

end Root

end Machine

end InteropTables
