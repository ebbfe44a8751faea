import InteropTables.Text.Lossy

/-!
# The metadata root

Metadata starts with a signature, a version text and the directory of its streams. A directory
entry is as long as its name makes it.

* `StreamEntry.read`: the entry at a place of the metadata;
* `StreamEntry.encodedSize`: the bytes that the directory holds for an entry;
* `MetadataRoot.read`: the root, with every entry checked to lie inside the metadata;
* `MetadataRoot.stream?`: the first stream with a given name.
-/

namespace InteropTables

/-! ## 1. Directory entries -/

/-- A stream of metadata: a name and a place. -/
structure StreamEntry where
  offset : Nat
  size : Nat
  name : String
deriving DecidableEq, Repr

namespace StreamEntry

/-- The most bytes that a name takes, with the zero byte behind it. -/
def maxNameSize : Nat := 32

/-- The entry at a place of the metadata. -/
def read (data : ByteArray) (place : Nat) : Except Fault StreamEntry := do
  if data.size < place + 9 then
    throw .outOfBounds
  let offset ← Bytes.word data 4 place
  let size ← Bytes.word data 4 (place + 4)
  let area := data.extract (place + 8) (place + 8 + maxNameSize)
  match Bytes.findZero area 0 with
  | none => throw (.malformed .streamNameOpen)
  | some 0 => throw (.malformed .streamNameEmpty)
  | some length => return { offset, size, name := Lossy.decode (area.extract 0 length) }

/-- The bytes of an entry: two words, and the name with a zero byte, filled up to whole words. -/
def encodedSize (e : StreamEntry) : Nat :=
  8 + (e.name.utf8ByteSize + 1 + 3) / 4 * 4

end StreamEntry

/-! ## 2. The root -/

/-- What the start of the metadata says. -/
structure MetadataRoot where
  majorVersion : Nat
  minorVersion : Nat
  /-- The runtime that the module was built for. -/
  version : String
  streams : List StreamEntry
deriving DecidableEq, Repr

namespace MetadataRoot

/-- The word that metadata starts with, the letters `BSJB`. -/
def signature : Nat := 0x424A5342

/-- The least size of an entry. -/
def minEntrySize : Nat := 9

/-- Whether a stream lies inside metadata of a given size. -/
def checkEntry (limit : Nat) (e : StreamEntry) : Except Fault Unit :=
  if wordCount 4 ≤ e.offset + e.size then .error (.malformed (.streamOverflow e.offset e.size))
  else if e.offset + e.size ≤ limit then .ok ()
  else .error .outOfBounds

/-- `count` entries that stand one behind the other from `place` on, behind those already in
`entries` (last one first). -/
def readEntriesOnto (data : ByteArray) :
    (count place : Nat) → (entries : List StreamEntry) → Except Fault (List StreamEntry)
  | 0, _, entries => .ok entries.reverse
  | count + 1, place, entries => do
    let entry ← StreamEntry.read data place
    checkEntry data.size entry
    readEntriesOnto data count (place + entry.encodedSize) (entry :: entries)

/-- `count` entries that stand one behind the other from `place` on. -/
def readEntries (data : ByteArray) (count place : Nat) : Except Fault (List StreamEntry) :=
  readEntriesOnto data count place []

/-- The bytes of a block in front of its first zero byte. -/
def untilZero (data : ByteArray) : ByteArray :=
  match Bytes.findZero data 0 with
  | some length => data.extract 0 length
  | none => data

/-- The root at the start of the metadata. -/
def read (data : ByteArray) : Except Fault MetadataRoot := do
  if data.size < 20 then
    throw .outOfBounds
  let found ← Bytes.word data 4 0
  if found ≠ signature then
    throw (.malformed (.rootSignature found))
  let majorVersion ← Bytes.word data 2 4
  let minorVersion ← Bytes.word data 2 6
  let versionSize ← Bytes.word data 4 12
  let version ← Bytes.slice data 16 versionSize
  let count ← Bytes.word data 2 (16 + versionSize + 2)
  if count = 0 ∨ data.size < count * minEntrySize then
    throw (.malformed (.streamCount count))
  let streams ← readEntries data count (16 + versionSize + 4)
  return { majorVersion, minorVersion, version := Lossy.decode (untilZero version), streams }

/-- The first stream with a given name. -/
def stream? (root : MetadataRoot) (name : String) : Option StreamEntry :=
  root.streams.find? fun e => e.name == name

end MetadataRoot

end InteropTables
