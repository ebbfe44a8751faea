import InteropTables.Bytes

/-!
# The runtime header

The first header of a managed module inside the image. It says where the metadata stands.

* `RuntimeHeader.read`: the header at the start of a block; it must announce its own size and point
  to metadata.
-/

namespace InteropTables

/-- The header that the runtime looks for. -/
structure RuntimeHeader where
  majorVersion : Nat
  minorVersion : Nat
  /-- The address of the metadata. -/
  metadataAddress : Nat
  /-- The size of the metadata. -/
  metadataSize : Nat
  flags : Nat
  /-- The token of the method to start with. -/
  entryPoint : Nat
deriving DecidableEq, Repr

namespace RuntimeHeader

/-- The size of the header, which it also announces. -/
def size : Nat := 72

/-- The header at the start of a block. -/
def read (data : ByteArray) : Except Fault RuntimeHeader := do
  if data.size < size then
    throw .outOfBounds
  let announced ← Bytes.word data 4 0
  if announced ≠ size then
    throw (.malformed (.headerSize announced))
  let metadataAddress ← Bytes.word data 4 8
  let metadataSize ← Bytes.word data 4 12
  if metadataAddress = 0 ∨ metadataSize = 0 then
    throw (.malformed (.noMetadata metadataAddress metadataSize))
  return {
    majorVersion := ← Bytes.word data 2 4
    minorVersion := ← Bytes.word data 2 6
    metadataAddress, metadataSize
    flags := ← Bytes.word data 4 16
    entryPoint := ← Bytes.word data 4 20 }

end RuntimeHeader

end InteropTables
