import InteropTables.Bytes

/-!
# Portable executable images

A managed module is wrapped in a portable executable: headers, a table of sections, and the
sections themselves. Addresses in the image are relative to where it would be loaded; a section
says which addresses it covers and where its bytes stand in the file.

* `Section.isName`: whether a section may have a name;
* `BuildRecord.isReadable`: whether a record of the build is complete;
* `Section.readSize`: how many bytes of a section a loader maps from the file;
* `Image.ofBytes`: the image in a file, if it is one and announces a runtime header;
* `Image.offsetOf`: the place in the file of an address;
* `Image.slice`: part of the file.

Two rules map addresses. The loader's rule (`mappedOffset?`) counts the bytes that the file holds
for a section and decides whether the file is an image at all; `Image.offsetOf` goes by the size
that a section has in memory.
-/

namespace InteropTables

/-! ## 1. Sections -/

/-- An entry of the section table. -/
structure Section where
  virtualSize : Nat
  virtualAddress : Nat
  rawSize : Nat
  rawPointer : Nat
deriving DecidableEq, Repr

/-- The least multiple of `unit` that is not below `n`. -/
def alignUp (unit n : Nat) : Nat :=
  (n + unit - 1) / unit * unit

/-- Whether a number is a power of two. -/
def isPowerOfTwo (n : Nat) : Bool :=
  n != 0 && 1 <<< n.log2 == n

namespace Section

/-- The size of a memory page. -/
def pageSize : Nat := 0x1000

/-- The unit in which a loader reads a file. -/
def blockSize : Nat := 0x200

/-- The number of bytes that a loader maps from the file: whole blocks, and no more pages than the
section has in the file or, unless that is zero, in memory. -/
def readSize (s : Section) (fileAlignment : Nat) : Nat :=
  if s.rawSize = 0 then 0
  else
    let start := s.rawPointer / blockSize * blockSize
    let blocks := alignUp fileAlignment (s.rawPointer + s.rawSize) - start
    let inFile := min blocks (alignUp pageSize s.rawSize)
    if s.virtualSize = 0 then inFile else min inFile (alignUp pageSize s.virtualSize)

/-- Whether the section holds an address, when it covers `size` bytes. -/
def covers (s : Section) (size address : Nat) : Bool :=
  s.virtualAddress ≤ address && address < s.virtualAddress + size

/-- The place in the file of an address in the section. -/
def place (s : Section) (address : Nat) : Nat :=
  address - s.virtualAddress + s.rawPointer

/-- The size of an entry of the section table. -/
def entrySize : Nat := 40

/-- Whether a byte is a digit. -/
def isDigitByte (b : UInt8) : Bool := 0x30 ≤ b && b ≤ 0x39

/-- Whether a byte is a digit of a number in base 64: a letter, a digit, a plus or a slash. -/
def isBase64Byte (b : UInt8) : Bool :=
  (0x41 ≤ b && b ≤ 0x5A) || (0x61 ≤ b && b ≤ 0x7A) || isDigitByte b || b == 0x2B || b == 0x2F

/-- Whether bytes are a number in decimal digits, with or without a plus in front. -/
def isDecimal : List UInt8 → Bool
  | 0x2B :: digits => !digits.isEmpty && digits.all isDigitByte
  | digits => !digits.isEmpty && digits.all isDigitByte

/-- The bytes of a text that a zero byte ends. -/
def textBytes (bytes : List UInt8) : List UInt8 :=
  bytes.takeWhile (· != 0)

/-- Whether a section may have a name. A slash in front says that the name stands elsewhere, at a
place given in decimal digits or, behind a second slash, in base 64. -/
def isName : List UInt8 → Bool
  | 0x2F :: 0x2F :: place => (textBytes place).all isBase64Byte
  | 0x2F :: place => isDecimal (textBytes place)
  | _ => true

/-- The size of the name of a section. -/
def nameSize : Nat := 8

/-- The entry at a place of the section table. -/
def read? (data : ByteArray) (offset : Nat) : Option Section := do
  let _ ← Bytes.slice? data offset entrySize
  guard (isName (Bytes.toList (← Bytes.slice? data offset nameSize)))
  return {
    virtualSize := ← Bytes.word? data 4 (offset + 8)
    virtualAddress := ← Bytes.word? data 4 (offset + 12)
    rawSize := ← Bytes.word? data 4 (offset + 16)
    rawPointer := ← Bytes.word? data 4 (offset + 20) }

end Section

/-- The place in the file of an address by the loader's rule: the first section that covers it
with the bytes it has in the file. Nothing is mapped when the alignment is no power of two. -/
def mappedOffset? (fileAlignment : Nat) (sections : List Section) (address : Nat) : Option Nat :=
  if isPowerOfTwo fileAlignment then
    (sections.find? fun s => s.covers (s.readSize fileAlignment) address).map (·.place address)
  else none

/-! ## 2. The record of the build

Between the first header and the signature some tools leave a record of how the image was built: the
word "DanS", entries of one word each, the word "Rich" and a key, all words but the last two
combined with the key.
-/

namespace BuildRecord

/-- Where the record may start. -/
def firstPlace : Nat := 0x40

/-- The word "DanS". -/
def opening : Nat := 0x536E6144

/-- The word "Rich". -/
def closing : Nat := 0x68636952

/-- The first place where a word stands, of so many places. -/
def placeOf? (data : ByteArray) (word places : Nat) : Option Nat :=
  ((List.range places).map (firstPlace + ·)).find? fun i => Bytes.word? data 4 i == some word

/-- Whether the bytes in front of the signature hold no record, or one with an opening and at least
one entry. -/
def isReadable (data : ByteArray) (signature : Nat) : Bool :=
  match placeOf? data closing (signature - 7 - firstPlace) with
  | none => true
  | some stop =>
    Option.isSome do
      let key ← Bytes.word? data 4 (stop + 4)
      let start ← placeOf? data (opening ^^^ key) (stop - 3 - firstPlace)
      guard (start + 4 < stop ∧ (stop - start) % 4 = 0)

end BuildRecord

/-! ## 3. Headers -/

/-- What the optional header says. -/
structure OptionalHeader where
  fileAlignment : Nat
  /-- The addresses and sizes of the data directories. -/
  directories : List (Nat × Nat)
deriving DecidableEq, Repr

namespace OptionalHeader

/-- The number of the directory that points to the runtime header. -/
def runtimeDirectory : Nat := 14

/-- The largest number of directories. -/
def maxDirectories : Nat := 16

/-- The optional header at a place of the file, in its 32-bit or its 64-bit form. -/
def read? (data : ByteArray) (offset : Nat) : Option OptionalHeader := do
  let fixedSize ← match ← Bytes.word? data 2 offset with
    | 0x10B => some 96
    | 0x20B => some 112
    | _ => none
  let _ ← Bytes.slice? data offset fixedSize
  let count ← Bytes.word? data 4 (offset + fixedSize - 4)
  guard (count ≤ maxDirectories)
  let directories ← (List.range count).mapM fun i => do
    let entry := offset + fixedSize + 8 * i
    return (← Bytes.word? data 4 entry, ← Bytes.word? data 4 (entry + 4))
  return { fileAlignment := ← Bytes.word? data 4 (offset + 36), directories }

/-- The address and size of the runtime header; two zeros say that there is none. -/
def runtimeHeader? (h : OptionalHeader) : Option (Nat × Nat) :=
  (h.directories[runtimeDirectory]?).filter fun d => d != (0, 0)

end OptionalHeader

/-- What the headers of an image say. -/
structure ImageHeaders where
  optionalHeader : Option OptionalHeader
  sections : List Section
deriving DecidableEq, Repr

namespace ImageHeaders

/-- The headers in a file, if its start has the form of an image. -/
def read? (data : ByteArray) : Option ImageHeaders := do
  guard ((← Bytes.word? data 2 0) = 0x5A4D)
  let signature ← Bytes.word? data 4 0x3C
  guard (0x40 ≤ signature ∧ (← Bytes.word? data 4 signature) = 0x4550)
  guard (BuildRecord.isReadable data signature)
  let fileHeader := signature + 4
  let _ ← Bytes.slice? data fileHeader 20
  let sectionCount ← Bytes.word? data 2 (fileHeader + 2)
  let optionalSize ← Bytes.word? data 2 (fileHeader + 16)
  let optionalStart := fileHeader + 20
  let optionalHeader ←
    if optionalSize = 0 then some none
    else (OptionalHeader.read? data optionalStart).map some
  guard (sectionCount ≤ data.size / Section.entrySize)
  let sections ← (List.range sectionCount).mapM fun i =>
    Section.read? data (optionalStart + optionalSize + Section.entrySize * i)
  return { optionalHeader, sections }

/-- The address and size of the runtime header, if the image announces one. -/
def runtimeHeader? (h : ImageHeaders) : Option (Nat × Nat) :=
  h.optionalHeader.bind (·.runtimeHeader?)

/-- Whether the runtime header of an image, if there is one, leads to metadata inside the file whose
version text is valid. -/
def runtimeReadable (h : ImageHeaders) (data : ByteArray) : Bool :=
  match h.optionalHeader, h.runtimeHeader? with
  | some optionalHeader, some (address, _) =>
    let mapped := mappedOffset? optionalHeader.fileAlignment h.sections
    Option.isSome do
      let header ← mapped address
      let _ ← Bytes.slice? data header 72
      let metadata ← mapped (← Bytes.word? data 4 (header + 8))
      let _ ← Bytes.slice? data metadata (← Bytes.word? data 4 (header + 12))
      let _ ← Bytes.slice? data metadata 16
      let versionLength ← Bytes.word? data 4 (metadata + 12)
      let _ ← String.fromUTF8? (← Bytes.slice? data (metadata + 16) versionLength)
      Bytes.slice? data (metadata + 16 + versionLength) 4
  | _, _ => true

end ImageHeaders

/-! ## 4. Images -/

/-- A file with a runtime header. -/
structure Image where
  data : ByteArray
  sections : List Section
  /-- The address of the runtime header. -/
  runtimeAddress : Nat
  /-- The size of the runtime header. -/
  runtimeSize : Nat

namespace Image

/-- The image in a file. A file that is no image, an image without data directories, and one
without a runtime header are told apart. -/
def ofBytes (data : ByteArray) : Except Fault Image :=
  if data.size = 0 then .error .empty
  else
    match ImageHeaders.read? data with
    | none => .error .notAnImage
    | some headers =>
      if headers.runtimeReadable data then
        match headers.optionalHeader, headers.runtimeHeader? with
        | none, _ => .error (.malformed .noOptionalHeader)
        | some _, none => .error .notSupported
        | some _, some (address, size) => .ok ⟨data, headers.sections, address, size⟩
      else .error .notAnImage

/-- Part of the file. -/
def slice (image : Image) (offset len : Nat) : Except Fault ByteArray :=
  Bytes.slice image.data offset len

/-- The place of an address by the sections, in their order. A section that would end beyond the
address space is refused when the search comes to it. -/
def offsetIn : (sections : List Section) → (address : Nat) → Except Fault Nat
  | [], address => .error (.malformed (.addressUnmapped address))
  | s :: rest, address =>
    if wordCount 4 ≤ s.virtualAddress + s.virtualSize then
      .error (.malformed (.sectionOverflow s.virtualAddress s.virtualSize))
    else if s.covers s.virtualSize address then .ok (s.place address)
    else offsetIn rest address

/-- The place in the file of an address. -/
def offsetOf (image : Image) (address : Nat) : Except Fault Nat :=
  if wordCount 4 ≤ address then .error (.malformed (.addressTooLarge address))
  else offsetIn image.sections address

end Image

end InteropTables
