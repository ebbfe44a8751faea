import InteropTables.Metadata.File
import InteropTables.Proofs.Machine.Headers
import InteropTables.Proofs.Machine.Tables

/-!
# The streams of an image on a machine of words

The machine follows the addresses of an image to its metadata and cuts the streams out of it. The
metadata are announced with a size of four bytes, so every stream and every byte string in it is
shorter than such a word can count; all later sums rest on that.

* `readStreams`: the streams of an image; `Streams.Shows`: they show the streams of the library;
* `readStreams_follows`: **the streams are read as the library reads them**, for every image whose
  headers fit their words.
-/

namespace InteropTables

namespace Machine

/-- The streams in use, each if there is one. -/
structure Streams where
  tables : Option Tables := none
  strings : Option StringHeap := none
  blobs : Option BlobHeap := none

/-- The stream with a given name and content, added to those found before. -/
def Streams.add (found : Streams) (name : String) (content : ByteArray) : Run Streams :=
  if name = "#~" ∨ name = "#-" then do
    return { found with tables := some (← readTables content) }
  else if name = "#Strings" then do
    return { found with strings := some (← Run.of (StringHeap.ofBytes content)) }
  else if name = "#Blob" then do
    return { found with blobs := some (← Run.of (BlobHeap.ofBytes content)) }
  else return found

/-- The content of the stream of an entry, if the metadata hold it. -/
def contentOf (metadata : ByteArray) (entry : StreamEntry) : Run ByteArray :=
  let stop := entry.offset + entry.size
  if wordCount 8 ≤ stop ∨ metadata.size < stop then
    .fail (.malformed (.streamOutside entry.name entry.offset entry.size))
  else part metadata entry.offset stop

/-- The streams of an image. -/
def readStreams (image : Image) : Run Streams := do
  let headerPlace ← offsetOf image image.runtimeAddress
  let header ← readHeader (← cut image.data headerPlace image.runtimeSize)
  let metadataPlace ← offsetOf image header.metadataAddress
  let metadata ← cut image.data metadataPlace header.metadataSize
  let root ← readRoot metadata
  root.streams.foldlM (fun found entry => do
    found.add entry.name (← contentOf metadata entry)) {}

/-- The streams show those of the library, and byte strings are short. -/
structure Streams.Shows (x : Streams) (s : MetadataStreams) : Prop where
  tables : Option.Rel Tables.Shows x.tables s.tables
  strings : x.strings = s.strings
  blobs : x.blobs = s.blobs
  blobSize : ∀ heap, s.blobs = some heap → heap.data.size < wordCount 4

theorem streams_empty : Streams.Shows {} .empty :=
  ⟨.none, rfl, rfl, nofun⟩

theorem data_ofBytes {data : ByteArray} {heap : BlobHeap} (h : BlobHeap.ofBytes data = .ok heap) :
    heap.data = data := by
  rw [BlobHeap.ofBytes] at h
  split at h
  · rw [← Except.ok.inj h]
  · cases h

theorem add_follows {x : Streams} {s : MetadataStreams} (h : x.Shows s) (name : String)
    {content : ByteArray} (hcontent : content.size < wordCount 4) :
    Follows Streams.Shows (x.add name content) (s.add name content) := by
  rw [Streams.add, MetadataStreams.add]
  refine .ite (fun _ => ?_) fun _ => .ite (fun _ => ?_) fun _ => .ite (fun _ => ?_) fun _ => ?_
  · refine (readTables_follows hcontent).map fun a b hab => ?_
    exact ⟨.some hab, h.strings, h.blobs, h.blobSize⟩
  · refine (follows_of _).map fun a b hab => ?_
    exact ⟨h.tables, congrArg some hab, h.blobs, h.blobSize⟩
  · cases hheap : BlobHeap.ofBytes content with
    | error e => exact follows_fail e
    | ok heap =>
      refine follows_pure ⟨h.tables, h.strings, rfl, fun found hfound => ?_⟩
      obtain rfl := Option.some.inj hfound
      rwa [data_ofBytes hheap]
  · exact follows_pure h

/-- A stream of metadata with a size of four bytes has such a size, too. -/
theorem addEntry_follows {metadata : ByteArray} (hmetadata : metadata.size < wordCount 4)
    {x : Streams} {s : MetadataStreams} (h : x.Shows s) (entry : StreamEntry) :
    Follows Streams.Shows (do x.add entry.name (← contentOf metadata entry))
      (match Bytes.slice? metadata entry.offset entry.size with
      | some content => s.add entry.name content
      | none => .error (.malformed (.streamOutside entry.name entry.offset entry.size))) := by
  have hfour := wordCount_four
  have height := wordCount_eight
  rw [contentOf, Bytes.slice?]
  by_cases hinside : entry.offset + entry.size ≤ metadata.size
  · rw [if_neg (by omega), if_pos hinside, part_of_le (by omega) hinside]
    refine add_follows h entry.name ?_
    rw [ByteArray.size_extract]
    omega
  · rw [if_pos (by omega), if_neg hinside]
    exact follows_fail _

theorem size_of_slice {data found : ByteArray} {offset len : Nat}
    (h : Bytes.slice data offset len = .ok found) (hlen : len < wordCount 4) :
    found.size < wordCount 4 := by
  rwa [Bytes.size_of_slice h]

/-- **The streams of an image are read as the library reads them.** -/
theorem readStreams_follows {image : Image} (himage : image.Narrow) :
    Follows Streams.Shows (readStreams image)
      (do return (← MetadataFile.ofImage image).streams) := by
  have hfour := wordCount_four
  have height := wordCount_eight
  have hlibrary : (do return (← MetadataFile.ofImage image).streams : Except Fault _) = (do
      let headerPlace ← image.offsetOf image.runtimeAddress
      let header ← RuntimeHeader.read (← image.slice headerPlace image.runtimeSize)
      let metadataPlace ← image.offsetOf header.metadataAddress
      let metadata ← image.slice metadataPlace header.metadataSize
      let root ← MetadataRoot.read metadata
      MetadataStreams.read metadata root.streams) := by
    simp only [MetadataFile.ofImage, bind_assoc, pure_bind, bind_pure]
  rw [hlibrary, readStreams]
  refine (offsetOf_follows himage _).bind fun _ place _ h => ?_
  obtain ⟨rfl, hplace⟩ := h
  have hsize := himage.runtimeSize
  refine (cut_follows (by omega)).bind_eq fun headerBlock hheader => ?_
  have hblock := size_of_slice hheader hsize
  refine (readHeader_follows (by omega)).bind fun _ header _ h => ?_
  obtain ⟨rfl, hmetadataSize⟩ := h
  refine (offsetOf_follows himage _).bind fun _ place _ h => ?_
  obtain ⟨rfl, hplace⟩ := h
  refine (cut_follows (by omega)).bind_eq fun metadata hmetadata => ?_
  have hmetadata := size_of_slice hmetadata hmetadataSize
  refine (readRoot_follows hmetadata).bind_eq fun root _ => ?_
  exact Follows.foldlM (fun entry _ x s h => addEntry_follows hmetadata h entry) streams_empty

end Machine

end InteropTables
