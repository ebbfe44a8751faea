import InteropTables.Reader

/-!
# Heaps

Texts and byte strings of variable length stand in heaps of their own; rows refer to them by place.
Both heaps start with a zero byte, which is the empty text and the empty byte string.

* `StringHeap.ofBytes`, `StringHeap.get`: the text from a place up to the next zero byte;
* `BlobHeap.ofBytes`, `BlobHeap.get`: the bytes behind the compressed length at a place.
-/

namespace InteropTables

/-- Whether a block starts with a zero byte. -/
def startsWithZero (data : ByteArray) : Bool :=
  data[0]? == some 0

/-! ## 1. Texts -/

/-- A heap of texts, each ended by a zero byte. -/
structure StringHeap where
  data : ByteArray

namespace StringHeap

/-- The heap in a block. -/
def ofBytes (data : ByteArray) : Except Fault StringHeap :=
  if startsWithZero data then .ok ⟨data⟩ else .error (.malformed .stringHeapStart)

/-- The text at a place: the bytes up to the next zero byte, which must be UTF-8. -/
def get (heap : StringHeap) (index : Nat) : Except Fault String :=
  if index < heap.data.size then
    match (Bytes.findZero heap.data index).bind fun stop =>
        String.fromUTF8? (heap.data.extract index stop) with
    | some text => .ok text
    | none => .error (.malformed (.textAt index))
  else .error .outOfBounds

end StringHeap

/-! ## 2. Byte strings -/

/-- A heap of byte strings, each behind its length. -/
structure BlobHeap where
  data : ByteArray

namespace BlobHeap

/-- The heap that holds nothing but the empty byte string. -/
def nothing : BlobHeap :=
  ⟨Bytes.ofList [0]⟩

/-- The heap in a block. -/
def ofBytes (data : ByteArray) : Except Fault BlobHeap :=
  if startsWithZero data then .ok ⟨data⟩ else .error (.malformed .blobHeapStart)

/-- The most bytes that a compressed length takes. -/
def maxLengthSize : Nat := 4

/-- The byte string at a place. -/
def get (heap : BlobHeap) (index : Nat) : Except Fault ByteArray := do
  if index < heap.data.size then
    let start := Cursor.ofBlock (heap.data.extract index (index + maxLengthSize))
    let (length, behind) := Reader.compressed.run start
    Bytes.slice heap.data (index + behind.position) (← length)
  else
    throw .outOfBounds

end BlobHeap

end InteropTables
