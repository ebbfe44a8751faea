import InteropTables.Image
import InteropTables.Metadata.Heap
import InteropTables.Metadata.Root
import InteropTables.Metadata.RuntimeHeader
import InteropTables.Metadata.TableStream

/-!
# The metadata of a file

From a file to the parts that describe its module: the runtime header leads to the metadata root,
the root to the streams, and three of the streams are read: the tables and two heaps.

* `MetadataStreams`: the streams that were found;
* `MetadataStreams.add`: one more stream; a later one replaces an earlier one of its kind;
* `MetadataFile.ofBytes`: all of it, for a file.
-/

namespace InteropTables

/-- The streams in use, each if there is one. -/
structure MetadataStreams where
  tables : Option TableStream
  strings : Option StringHeap
  blobs : Option BlobHeap

namespace MetadataStreams

/-- No stream at all. -/
def empty : MetadataStreams :=
  ⟨none, none, none⟩

/-- The stream with a given name and content, added to those found before. The tables may go by
two names; streams of other names are not read. -/
def add (found : MetadataStreams) (name : String) (content : ByteArray) :
    Except Fault MetadataStreams :=
  if name = "#~" ∨ name = "#-" then
    (TableStream.read content).map fun tables => { found with tables := some tables }
  else if name = "#Strings" then
    (StringHeap.ofBytes content).map fun strings => { found with strings := some strings }
  else if name = "#Blob" then
    (BlobHeap.ofBytes content).map fun blobs => { found with blobs := some blobs }
  else .ok found

/-- The streams that a directory lists, in its order. -/
def read (metadata : ByteArray) (entries : List StreamEntry) : Except Fault MetadataStreams :=
  entries.foldlM (fun found entry =>
    match Bytes.slice? metadata entry.offset entry.size with
    | some content => found.add entry.name content
    | none => .error (.malformed (.streamOutside entry.name entry.offset entry.size))) empty

end MetadataStreams

/-- A file with its headers and streams. -/
structure MetadataFile where
  image : Image
  header : RuntimeHeader
  root : MetadataRoot
  streams : MetadataStreams

namespace MetadataFile

/-- The metadata of an image. -/
def ofImage (image : Image) : Except Fault MetadataFile := do
  let headerOffset ← image.offsetOf image.runtimeAddress
  let header ← RuntimeHeader.read (← image.slice headerOffset image.runtimeSize)
  let metadataOffset ← image.offsetOf header.metadataAddress
  let metadata ← image.slice metadataOffset header.metadataSize
  let root ← MetadataRoot.read metadata
  let streams ← MetadataStreams.read metadata root.streams
  return { image, header, root, streams }

/-- The metadata of a file. -/
def ofBytes (data : ByteArray) : Except Fault MetadataFile := do
  ofImage (← Image.ofBytes data)

end MetadataFile

end InteropTables
