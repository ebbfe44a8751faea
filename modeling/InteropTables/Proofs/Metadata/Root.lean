import InteropTables.Metadata.File
import InteropTables.Proofs.Machine.Headers
import InteropTables.Proofs.Machine.Tables
import InteropTables.Proofs.Metadata.Directory

/-!
# The root of metadata read back

A root is written in one way but for a reserved word, the flags and the zero bytes behind the
version. None of these is looked at. What is checked of a root is that its streams lie inside the
metadata, so whoever cuts them out need not check it again.

* `RootFiller`, `MetadataRoot.bytes`: what a root leaves open, and its bytes;
* `MetadataRoot.Valid`: what a root may be;
* `MetadataRoot.Head`, `read_eq_ok_iff`: **a root is what stands in front of its directory, and a
  walk through it**;
* `BeginsWith`, `beginsWith_bytes`: where the parts of a root stand;
* `read_bytes`: **a root whose streams lie inside is read back**;
* `inside_of_read`: **the streams of a root that is read lie inside**;
* `metadataSize_lt`: the metadata of a file have a size of four bytes;
* `KeepsInside`, `keepsInside_streams`: cutting the streams out does not fail;
* `keepsInside_file`: **no file is refused for a stream that leaves the metadata**;
* `root_read_back`: **all of this.**
-/

namespace InteropTables

/-! ## 1. The bytes of a root -/

/-- What a root leaves open. -/
structure RootFiller where
  /-- The word behind the version numbers. -/
  reserved : UInt32
  /-- How many zero bytes fill up the version text. -/
  padding : Nat
  flags : UInt16

namespace MetadataRoot

/-- The bytes that stand for the version text. -/
def versionBytes (root : MetadataRoot) (filler : RootFiller) : List UInt8 :=
  textBytes root.version ++ List.replicate filler.padding 0

/-- The bytes of a root. -/
def bytes (root : MetadataRoot) (filler : RootFiller) : List UInt8 :=
  ofNatLE 4 signature ++ (ofNatLE 2 root.majorVersion ++ (ofNatLE 2 root.minorVersion ++
    (ofNatLE 4 filler.reserved.toNat ++ (ofNatLE 4 (root.versionBytes filler).length ++
      (root.versionBytes filler ++ (ofNatLE 2 filler.flags.toNat ++
        (ofNatLE 2 root.streams.length ++ root.streams.flatMap StreamEntry.bytes)))))))

/-- A root that metadata may start with: its numbers fit their words, its version has no zero in it,
and it has a stream. -/
structure Valid (root : MetadataRoot) (filler : RootFiller) : Prop where
  majorVersion : root.majorVersion < wordCount 2
  minorVersion : root.minorVersion < wordCount 2
  no_nul : nul ∉ root.version.toList
  versionSize : (root.versionBytes filler).length < wordCount 4
  streams_pos : 0 < root.streams.length
  streams_lt : root.streams.length < wordCount 2
  streams : ∀ e ∈ root.streams, e.Valid

/-! ## 2. What is read -/

/-- What stands in front of a directory of so many entries, behind a version text of some size. -/
structure Head (data : ByteArray) (root : MetadataRoot) (size count : Nat) : Prop where
  long : 20 ≤ data.size
  signature : Bytes.word data 4 0 = .ok signature
  majorVersion : Bytes.word data 2 4 = .ok root.majorVersion
  minorVersion : Bytes.word data 2 6 = .ok root.minorVersion
  versionSize : Bytes.word data 4 12 = .ok size
  version : ∃ text, Bytes.slice data 16 size = .ok text ∧
    root.version = Lossy.decode (untilZero text)
  entries : Bytes.word data 2 (16 + size + 2) = .ok count
  entries_pos : count ≠ 0
  room : count * minEntrySize ≤ data.size

/-- The place of the directory, behind the version text and the number of entries. -/
def directoryPlace (versionSize : Nat) : Nat :=
  16 + versionSize + 4

/-- **A root is what stands in front of its directory, and a walk through it.** -/
theorem read_eq_ok_iff {data : ByteArray} {root : MetadataRoot} :
    read data = .ok root ↔ ∃ versionSize count steps, Head data root versionSize count ∧
      Walk data (directoryPlace versionSize) steps ∧ steps.length = count ∧
      root.streams = steps.map (·.2) := by
  rw [Machine.library_root]
  constructor
  · intro h
    split at h
    · cases h
    rename_i hlong
    obtain ⟨found, hfound, h⟩ := exists_of_bind_ok h
    split at h
    · cases h
    rename_i hsignature
    obtain ⟨majorVersion, hmajor, h⟩ := exists_of_bind_ok h
    obtain ⟨minorVersion, hminor, h⟩ := exists_of_bind_ok h
    obtain ⟨versionSize, hversionSize, h⟩ := exists_of_bind_ok h
    obtain ⟨version, hversion, h⟩ := exists_of_bind_ok h
    obtain ⟨count, hcount, h⟩ := exists_of_bind_ok h
    split at h
    · cases h
    rename_i hroom
    rw [not_or, Nat.not_lt] at hroom
    obtain ⟨streams, hstreams, h⟩ := exists_of_bind_ok h
    obtain rfl := Except.ok.inj h
    obtain ⟨steps, hwalk, hlength, rfl⟩ := readEntriesOnto_eq_ok_iff.1 hstreams
    rw [not_not] at hsignature
    exact ⟨versionSize, count, steps,
      ⟨Nat.le_of_not_lt hlong, hsignature ▸ hfound, hmajor, hminor, hversionSize,
        ⟨version, hversion, rfl⟩, hcount, hroom.1, hroom.2⟩, hwalk, hlength, rfl⟩
  · rintro ⟨versionSize, count, steps, hhead, hwalk, hlength, hstreams⟩
    obtain ⟨text, htext, hversion⟩ := hhead.version
    have hroom : ¬ (count = 0 ∨ data.size < count * minEntrySize) :=
      not_or.2 ⟨hhead.entries_pos, Nat.not_lt.2 hhead.room⟩
    have hentries : readEntriesOnto data count (16 + versionSize + 4) [] = .ok root.streams :=
      readEntriesOnto_eq_ok_iff.2 ⟨steps, hwalk, hlength, hstreams⟩
    rw [if_neg (Nat.not_lt.2 hhead.long), hhead.signature, bind_ok, if_neg (not_not_intro rfl),
      hhead.majorVersion, bind_ok, hhead.minorVersion, bind_ok, hhead.versionSize, bind_ok, htext,
      bind_ok, hhead.entries, bind_ok, if_neg hroom, hentries, bind_ok, ← hversion]
    rfl

/-! ## 3. Reading it back -/

theorem length_entries (entries : List StreamEntry) :
    12 * entries.length ≤ (entries.flatMap StreamEntry.bytes).length := by
  induction entries with
  | nil => exact Nat.le_refl _
  | cons e entries ih =>
    have he := e.length_bytes_ge
    rw [List.flatMap_cons, List.length_append, List.length_cons]
    omega

theorem length_bytes (root : MetadataRoot) (filler : RootFiller) : (root.bytes filler).length
    = 20 + (root.versionBytes filler).length
      + (root.streams.flatMap StreamEntry.bytes).length := by
  simp only [bytes, List.length_append, length_ofNatLE]
  omega

/-- Where the parts of a root stand in metadata that begin with it. The directory is the last of
them. -/
structure BeginsWith (metadata : List UInt8) (root : MetadataRoot) (filler : RootFiller)
    (behind : List UInt8) : Prop where
  signature : metadata.drop 0 = ofNatLE 4 signature ++ metadata.drop 4
  majorVersion : metadata.drop 4 = ofNatLE 2 root.majorVersion ++ metadata.drop 6
  minorVersion : metadata.drop 6 = ofNatLE 2 root.minorVersion ++ metadata.drop 8
  versionSize : metadata.drop 12
    = ofNatLE 4 (root.versionBytes filler).length ++ metadata.drop 16
  version : metadata.drop 16 = root.versionBytes filler
    ++ metadata.drop (16 + (root.versionBytes filler).length)
  count : metadata.drop (16 + (root.versionBytes filler).length + 2)
    = ofNatLE 2 root.streams.length ++ metadata.drop (16 + (root.versionBytes filler).length + 4)
  directory : metadata.drop (16 + (root.versionBytes filler).length + 4)
    = root.streams.flatMap StreamEntry.bytes ++ behind

theorem beginsWith_bytes (root : MetadataRoot) (filler : RootFiller) (behind : List UInt8) :
    BeginsWith (root.bytes filler ++ behind) root filler behind := by
  have hversion : (root.bytes filler ++ behind).drop 16 = root.versionBytes filler ++
      (ofNatLE 2 filler.flags.toNat ++ (ofNatLE 2 root.streams.length ++
        (root.streams.flatMap StreamEntry.bytes ++ behind))) := by
    rw [bytes]
    simp only [List.append_assoc]
    rfl
  have hflags : (root.bytes filler ++ behind).drop (16 + (root.versionBytes filler).length)
      = ofNatLE 2 filler.flags.toNat ++ (ofNatLE 2 root.streams.length ++
        (root.streams.flatMap StreamEntry.bytes ++ behind)) := by
    rw [← List.drop_drop, hversion, List.drop_left]
  have hcount : (root.bytes filler ++ behind).drop (16 + (root.versionBytes filler).length + 2)
      = ofNatLE 2 root.streams.length ++ (root.streams.flatMap StreamEntry.bytes ++ behind) := by
    rw [← List.drop_drop, hflags]
    rfl
  have hdirectory : (root.bytes filler ++ behind).drop
      (16 + (root.versionBytes filler).length + 4)
      = root.streams.flatMap StreamEntry.bytes ++ behind := by
    rw [← List.drop_drop, hflags]
    rfl
  exact ⟨rfl, rfl, rfl, rfl, by rw [hflags, hversion], by rw [hdirectory, hcount], hdirectory⟩

/-- **A root whose streams lie inside is read back.** -/
theorem read_bytes {root : MetadataRoot} {filler : RootFiller} (h : root.Valid filler)
    (behind : List UInt8)
    (hinside : ∀ e ∈ root.streams, e.Inside (root.bytes filler ++ behind).length) :
    read (Bytes.ofList (root.bytes filler ++ behind)) = .ok root := by
  have hplaces := beginsWith_bytes root filler behind
  have hlength := root.length_bytes filler
  have hsize : (root.bytes filler ++ behind).length
      = (root.bytes filler).length + behind.length := List.length_append
  generalize root.bytes filler ++ behind = metadata at hplaces hsize hinside ⊢
  have htext : Bytes.slice (Bytes.ofList metadata) 16 (root.versionBytes filler).length
      = .ok (Bytes.ofList (root.versionBytes filler)) := by
    rw [Bytes.slice_ofList (by omega), hplaces.version, List.take_left]
  have hwhole : ¬ (Bytes.ofList metadata).size < 20 := by
    rw [Bytes.size_ofList]
    omega
  have hroom : ¬ (root.streams.length = 0 ∨
      (Bytes.ofList metadata).size < root.streams.length * minEntrySize) := by
    have hpos := h.streams_pos
    have hentries := length_entries root.streams
    have hnine : minEntrySize = 9 := rfl
    rw [Bytes.size_ofList, hnine]
    omega
  have hsignature : signature < wordCount 4 := by decide
  rw [Machine.library_root, if_neg hwhole,
    Bytes.word_of_drop hsignature (by decide) hplaces.signature, bind_ok,
    if_neg (not_not_intro rfl),
    Bytes.word_of_drop h.majorVersion (by decide) hplaces.majorVersion, bind_ok,
    Bytes.word_of_drop h.minorVersion (by decide) hplaces.minorVersion, bind_ok,
    Bytes.word_of_drop h.versionSize (by decide) hplaces.versionSize, bind_ok, htext, bind_ok,
    Bytes.word_of_drop h.streams_lt (by decide) hplaces.count, bind_ok, if_neg hroom,
    readEntriesOnto_bytes h.streams hinside hplaces.directory, bind_ok, versionBytes,
    untilZero_ofList (textBytes_ne_zero h.no_nul), Lossy.decode_textBytes]
  rfl

/-! ## 4. Streams inside the metadata -/

/-- **The streams of a root that is read lie inside.** -/
theorem inside_of_read {data : ByteArray} {root : MetadataRoot} (h : read data = .ok root) :
    ∀ e ∈ root.streams, e.Inside data.size := by
  obtain ⟨versionSize, count, steps, -, hwalk, -, hstreams⟩ := read_eq_ok_iff.1 h
  intro e he
  rw [hstreams] at he
  obtain ⟨step, hstep, rfl⟩ := List.mem_map.1 he
  exact hwalk.inside step hstep

/-- A stream that lies inside can be cut out. -/
theorem exists_slice? {data : ByteArray} {e : StreamEntry} (h : e.Inside data.size) :
    ∃ content, Bytes.slice? data e.offset e.size = some content :=
  Option.isSome_iff_exists.1 (Bytes.slice?_isSome.2 h.le_limit)

end MetadataRoot

/-- The metadata of a file have a size of four bytes. -/
theorem RuntimeHeader.metadataSize_lt {data : ByteArray} {header : RuntimeHeader}
    (h : read data = .ok header) : header.metadataSize < wordCount 4 := by
  rw [Machine.library_header] at h
  split at h
  · cases h
  obtain ⟨announced, -, h⟩ := exists_of_bind_ok h
  split at h
  · cases h
  obtain ⟨metadataAddress, -, h⟩ := exists_of_bind_ok h
  obtain ⟨metadataSize, hsize, h⟩ := exists_of_bind_ok h
  split at h
  · cases h
  obtain ⟨majorVersion, -, h⟩ := exists_of_bind_ok h
  obtain ⟨minorVersion, -, h⟩ := exists_of_bind_ok h
  obtain ⟨flags, -, h⟩ := exists_of_bind_ok h
  obtain ⟨entryPoint, -, h⟩ := exists_of_bind_ok h
  obtain rfl := Except.ok.inj h
  exact Bytes.word_lt hsize

/-! ## 5. Cutting the streams out -/

/-- The failure of cutting out a stream that leaves its metadata. -/
@[simp] def Fault.IsStreamOutside : Fault → Prop
  | .malformed (.streamOutside _ _ _) => True
  | _ => False

/-- A step does not fail for a stream that leaves its metadata. -/
abbrev KeepsInside {α : Type} (x : Except Fault α) : Prop :=
  Spares Fault.IsStreamOutside x

@[simp] theorem keepsInside_slice (data : ByteArray) (offset len : Nat) :
    KeepsInside (Bytes.slice data offset len) := by
  simp [Bytes.slice]

@[simp] theorem keepsInside_word (data : ByteArray) (width offset : Nat) :
    KeepsInside (Bytes.word data width offset) := by
  simp [Bytes.word]

theorem keepsInside_image (data : ByteArray) : KeepsInside (Image.ofBytes data) := by
  refine spares_ite_iff.2 ⟨by simp, fun _ => ?_⟩
  cases ImageHeaders.read? data with
  | none => simp
  | some headers =>
    refine spares_ite_iff.2 ⟨fun _ => ?_, by simp⟩
    split <;> simp

@[simp] theorem keepsInside_offsetOf (image : Image) (address : Nat) :
    KeepsInside (image.offsetOf address) := by
  have hsections : ∀ sections, KeepsInside (Image.offsetIn sections address) := by
    intro sections
    induction sections with
    | nil => simp [Image.offsetIn]
    | cons s rest ih => simp [Image.offsetIn, ih]
  simp [Image.offsetOf, hsections]

theorem keepsInside_header (data : ByteArray) : KeepsInside (RuntimeHeader.read data) := by
  simp [Machine.library_header]

theorem keepsInside_entry (data : ByteArray) (place : Nat) :
    KeepsInside (StreamEntry.read data place) := by
  rw [Machine.library_entry]
  refine spares_ite_iff.2 ⟨by simp, fun _ => ?_⟩
  refine spares_bind_iff.2 ⟨by simp, fun offset _ => spares_bind_iff.2 ⟨by simp, fun size _ => ?_⟩⟩
  dsimp only
  split <;> simp

theorem keepsInside_entries (data : ByteArray) (count place : Nat) (before : List StreamEntry) :
    KeepsInside (MetadataRoot.readEntriesOnto data count place before) := by
  induction count generalizing place before with
  | zero => simp [MetadataRoot.readEntriesOnto]
  | succ count ih =>
    simp [MetadataRoot.readEntriesOnto, MetadataRoot.checkEntry, keepsInside_entry, ih]

theorem keepsInside_root (data : ByteArray) : KeepsInside (MetadataRoot.read data) := by
  simp [Machine.library_root, keepsInside_entries]

theorem keepsInside_layout (sizes : TableSizes) (limit : Nat) (tables : List TableId)
    (offset : Nat) : KeepsInside (TableStream.layoutFrom sizes limit tables offset) := by
  induction tables generalizing offset with
  | nil => simp [TableStream.layoutFrom]
  | cons t tables ih => simp [TableStream.layoutFrom, ih]

theorem keepsInside_tables (data : ByteArray) : KeepsInside (TableStream.read data) := by
  have hcounts : ∀ valid, KeepsInside (TableSizes.readCounts data valid) := by
    intro valid
    refine spares_mapM fun n hn => ?_
    simp
  simp [Machine.library_tables, TableSizes.read, hcounts, keepsInside_layout]

/-- A stream that can be cut out does not fail for leaving its metadata when it is read. -/
theorem keepsInside_add (found : MetadataStreams) (name : String) (content : ByteArray) :
    KeepsInside (found.add name content) := by
  simp [MetadataStreams.add, keepsInside_tables, StringHeap.ofBytes, BlobHeap.ofBytes]

/-- **The streams of a root that is read are cut out.** -/
theorem keepsInside_streams {data : ByteArray} {root : MetadataRoot}
    (h : MetadataRoot.read data = .ok root) :
    KeepsInside (MetadataStreams.read data root.streams) := by
  refine spares_foldlM (fun e he found => ?_) _
  obtain ⟨content, hcontent⟩ := MetadataRoot.exists_slice? (MetadataRoot.inside_of_read h e he)
  rw [hcontent]
  exact keepsInside_add found e.name content

/-- **No file is refused for a stream that leaves the metadata.** -/
theorem keepsInside_file (data : ByteArray) : KeepsInside (MetadataFile.ofBytes data) := by
  simp +contextual [MetadataFile.ofBytes, MetadataFile.ofImage, Image.slice, keepsInside_image,
    keepsInside_header, keepsInside_root, keepsInside_streams]

/-! ## 6. The root -/

/-- **A root is read back exactly when its streams lie inside the metadata**, whatever fills it up
and whatever stands behind it. Metadata of a file are announced with a size of four bytes, and in so
few bytes a stream lies inside when it ends there. The streams of every root that is read lie
inside, so all of them can be cut out, and no file is refused because one of them could not. -/
theorem root_read_back {root : MetadataRoot} {filler : RootFiller} (h : root.Valid filler)
    (behind : List UInt8) :
    (MetadataRoot.read (Bytes.ofList (root.bytes filler ++ behind)) = .ok root ↔
      ∀ e ∈ root.streams, e.Inside (root.bytes filler ++ behind).length) ∧
    (∀ block header, RuntimeHeader.read block = .ok header → header.metadataSize < wordCount 4) ∧
    ((root.bytes filler ++ behind).length < wordCount 4 →
      (MetadataRoot.read (Bytes.ofList (root.bytes filler ++ behind)) = .ok root ↔
        ∀ e ∈ root.streams, e.offset + e.size ≤ (root.bytes filler ++ behind).length)) ∧
    (∀ data accepted, MetadataRoot.read data = .ok accepted → ∀ e ∈ accepted.streams,
      e.Inside data.size ∧ ∃ content, Bytes.slice? data e.offset e.size = some content) ∧
    ∀ file name offset size,
      MetadataFile.ofBytes file ≠ .error (.malformed (.streamOutside name offset size)) := by
  have hback : MetadataRoot.read (Bytes.ofList (root.bytes filler ++ behind)) = .ok root ↔
      ∀ e ∈ root.streams, e.Inside (root.bytes filler ++ behind).length :=
    ⟨MetadataRoot.inside_of_read, MetadataRoot.read_bytes h behind⟩
  refine ⟨hback, fun _ _ => RuntimeHeader.metadataSize_lt, fun hsize => ?_,
    fun data accepted hread e he => ?_, fun file name offset size hfile => ?_⟩
  · rw [hback]
    exact forall₂_congr fun e _ => StreamEntry.inside_iff hsize
  · have hinside := MetadataRoot.inside_of_read hread e he
    exact ⟨hinside, MetadataRoot.exists_slice? hinside⟩
  · exact (keepsInside_file file).not_bad _ hfile trivial

/-- A root with two streams, one of them with a name that is not all letters of one byte. -/
def twoStreams : MetadataRoot where
  majorVersion := 1
  minorVersion := 1
  version := "v4.0.30319"
  streams := [⟨0, 64, "#~"⟩, ⟨64, 8, "#Blöb"⟩]

/-- Its second stream ends with the metadata, or one byte behind them. -/
theorem root_read_back_twoStreams :
    twoStreams.Valid ⟨7, 2, 1⟩ ∧
    MetadataRoot.read (Bytes.ofList (twoStreams.bytes ⟨7, 2, 1⟩ ++ List.replicate 12 0))
      = .ok twoStreams ∧
    MetadataRoot.read (Bytes.ofList (twoStreams.bytes ⟨7, 2, 1⟩ ++ List.replicate 11 0))
      ≠ .ok twoStreams ∧
    ∀ e ∈ twoStreams.streams, ∃ content, Bytes.slice?
      (Bytes.ofList (twoStreams.bytes ⟨7, 2, 1⟩ ++ List.replicate 12 0)) e.offset e.size
        = some content := by
  have hvalid : twoStreams.Valid ⟨7, 2, 1⟩ := by
    refine ⟨by decide, by decide, by decide, by decide, by decide, by decide, fun e he => ?_⟩
    simp only [twoStreams, List.mem_cons, List.not_mem_nil, or_false] at he
    rcases he with rfl | rfl <;> exact ⟨by decide, by decide, by decide, by decide, by decide⟩
  obtain ⟨hread, -, -, haccepted, -⟩ := root_read_back hvalid (List.replicate 12 0)
  obtain ⟨hshort, -⟩ := root_read_back hvalid (List.replicate 11 0)
  have hinside : ∀ e ∈ twoStreams.streams,
      e.Inside (twoStreams.bytes ⟨7, 2, 1⟩ ++ List.replicate 12 0).length := by
    intro e he
    simp only [twoStreams, List.mem_cons, List.not_mem_nil, or_false] at he
    rcases he with rfl | rfl <;> exact ⟨by decide, by decide⟩
  have hback := hread.2 hinside
  refine ⟨hvalid, hback, fun hfound => ?_, fun e he => (haccepted _ _ hback e he).2⟩
  have hlast := hshort.1 hfound ⟨64, 8, "#Blöb"⟩ (by decide)
  exact absurd hlast.le_limit (by decide)

end InteropTables
