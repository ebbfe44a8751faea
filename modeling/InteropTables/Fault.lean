import InteropTables.Token

/-!
# What can go wrong

Every failure of the library is a value of `Fault`: a cause with the facts that belong to it. The
wording is fixed in one place for each of the two types.

* `Malformation`: a part of a file breaks a rule of its format;
* `Fault`: a malformation, a read past the end, an input of the wrong kind, a nesting limit, or a
  method that has no valid native form;
* `Fault.message`: the sentence shown to a user; `Fault.report` marks malformations as such when
  the sentence stands inside another text.
-/

namespace InteropTables

/-! ## 1. Broken format rules -/

/-- The ways in which an image, its metadata or a signature breaks the format. -/
inductive Malformation where
  /-- The image has no optional header, so it has no data directories. -/
  | noOptionalHeader
  /-- An address that no 32-bit word holds. -/
  | addressTooLarge (address : Nat)
  /-- A section that would end beyond the 32-bit address space. -/
  | sectionOverflow (start size : Nat)
  /-- An address that lies in no section. -/
  | addressUnmapped (address : Nat)
  /-- A runtime header that does not announce its own size. -/
  | headerSize (announced : Nat)
  /-- A runtime header that points to no metadata. -/
  | noMetadata (address size : Nat)
  /-- Metadata that starts with another signature word. -/
  | rootSignature (found : Nat)
  /-- No stream, or more streams than the metadata has room for. -/
  | streamCount (count : Nat)
  /-- A stream that would end beyond the 32-bit range. -/
  | streamOverflow (offset size : Nat)
  /-- A stream that ends beyond the metadata. -/
  | streamOutside (name : String) (offset size : Nat)
  /-- No zero byte ends the name of a stream. -/
  | streamNameOpen
  /-- A stream without a name. -/
  | streamNameEmpty
  /-- A string heap that does not start with the empty string. -/
  | stringHeapStart
  /-- A blob heap that does not start with the empty blob. -/
  | blobHeapStart
  /-- No terminated UTF-8 text starts at this place of the string heap. -/
  | textAt (index : Nat)
  /-- A tables stream that announces no table. -/
  | noTables
  /-- Metadata without a tables stream. -/
  | noTableStream
  /-- Metadata without a string heap. -/
  | noStringHeap
  /-- A module that has neither an assembly row nor a module row. -/
  | noModuleTable
  /-- The lead byte of a compressed integer of no known length. -/
  | compressedLead (lead : UInt8)
  /-- A compressed token with the reserved tag. -/
  | compressedTag (value : Nat)
  /-- A generic instance of something that is neither class nor value type. -/
  | genericBase (found : UInt8)
  /-- A byte that starts no type. -/
  | elementType (found : UInt8)
  /-- The first byte of a signature that is not one of a method. -/
  | callingConvention (found : UInt8)
  /-- A type reference whose enclosing reference does not exist. -/
  | referenceScope (type scope : Token)
  /-- A nested type whose enclosing type does not exist. -/
  | enclosingType (type : Token) (enclosing : Nat)
  /-- A type whose method list leads to a method row that does not exist. -/
  | listedMethod (type method : Nat)
  /-- An import row for a method that does not exist. -/
  | forwardedMethod (row : Nat) (method : Token)
  /-- An import row whose native module does not exist. -/
  | importScope (row scope : Nat)
  /-- An index beyond the methods of the module. -/
  | methodIndex (index : Nat)
  /-- A method that no type lists. -/
  | orphanMethod (method : Token)
  /-- A token of a type specification that does not exist. -/
  | typeSpecification (token : Token)
  /-- A token that names no type. -/
  | typeToken (token : Token)
deriving DecidableEq, Repr

/-- The sentence for a broken rule. -/
def Malformation.message : Malformation → String
  | noOptionalHeader => "File does not have an OptionalHeader"
  | addressTooLarge a => "RVA too large to fit in u32: " ++ toString a
  | sectionOverflow a n =>
    "Section malformed, causing integer overflow - " ++ toString a ++ " + " ++ toString n
  | addressUnmapped a => "RVA could not be converted to offset - " ++ toString a
  | headerSize n => "Invalid CLR header size: expected 72, got " ++ toString n
  | noMetadata a n =>
    "CLR header has no metadata - rva: " ++ toString a ++ ", size: " ++ toString n
  | rootSignature w => "CIL_HEADER_MAGIC does not match - " ++ toString w
  | streamCount n => "Invalid stream count - " ++ toString n
  | streamOverflow a n =>
    "Stream offset and size cause integer overflow - " ++ toString a ++ " + " ++ toString n
  | streamOutside s a n =>
    "Stream " ++ s ++ " exceeds the metadata - " ++ toString a ++ " + " ++ toString n
  | streamNameOpen => "Stream header name is not terminated"
  | streamNameEmpty => "Stream header has an empty name"
  | stringHeapStart => "Provided #Strings heap is invalid"
  | blobHeapStart => "Invalid memory for #Blob heap"
  | textAt i => "Invalid string at index - " ++ toString i
  | noTables => "No valid rows in any of the tables"
  | noTableStream => "Metadata has no tables stream"
  | noStringHeap => "Metadata has no #Strings heap"
  | noModuleTable => "Metadata has no Module table"
  | compressedLead b => "Invalid compressed uint - " ++ toString b.toNat
  | compressedTag v => "Invalid compressed token - " ++ toString v
  | genericBase b =>
    "GENERICINST - Next byte is not TYPE_CLASS or TYPE_VALUE - " ++ toString b.toNat
  | elementType b => "Unsupported ELEMENT_TYPE - " ++ toString b.toNat
  | callingConvention b => "Not a method signature - calling convention " ++ toString b.toNat
  | referenceScope t s => "TypeRef " ++ t.display ++ " is nested in a missing type - " ++ s.display
  | enclosingType t e => "TypeDef " ++ t.display ++ " is nested in a missing type - " ++ toString e
  | listedMethod t m =>
    "Type " ++ toString t ++ " lists a method that does not exist - " ++ toString m
  | forwardedMethod r m =>
    "ImplMap row " ++ toString r ++ " forwards a method that does not exist - " ++ m.display
  | importScope r s =>
    "ImplMap row " ++ toString r ++ " has an invalid import scope - " ++ toString s
  | methodIndex i => "Method index out of range - " ++ toString i
  | orphanMethod m => "Method " ++ m.display ++ " has no declaring type"
  | typeSpecification t => "Invalid TypeSpec token - " ++ t.display
  | typeToken t => "Invalid type token - " ++ t.display

/-! ## 2. All failures -/

/-- The causes for which reading, scanning or generating fails. -/
inductive Fault where
  /-- A rule of the format is broken. -/
  | malformed (cause : Malformation)
  /-- A read beyond the end of the data, or a reference beyond the end of a table. -/
  | outOfBounds
  /-- An image without a runtime header: native code only. -/
  | notSupported
  /-- An input without a single byte. -/
  | empty
  /-- Nesting reaches the limit. -/
  | nestingLimit (limit : Nat)
  /-- A file that cannot be read or written. -/
  | fileAccess
  /-- Bytes that are no portable executable. -/
  | notAnImage
  /-- A native import that names no function. -/
  | missingEntryPoint (method : String)
  /-- A callback whose result has no native form. -/
  | nonBlittableReturn (method type : String)
  /-- A callback whose parameter number `index`, counted from zero, has no native form. -/
  | nonBlittableParameter (method : String) (index : Nat) (type : String)
  /-- Two callbacks that would share one trampoline name. -/
  | duplicateTrampoline (name : String)
  /-- A run that has no place to write to. -/
  | noOutputPath
deriving DecidableEq, Repr

namespace Fault

/-- The sentence for a failure. -/
def message : Fault → String
  | malformed cause => cause.message
  | outOfBounds => "Out of Bound read would have occurred!"
  | notSupported => "This file type is not supported"
  | empty => "Provided input was empty"
  | nestingLimit n => "Reach the maximum recursion level allowed - " ++ toString n
  | fileAccess => "The file cannot be accessed"
  | notAnImage => "The file is not a portable executable"
  | missingEntryPoint m =>
    "P/Invoke method '" ++ m ++ "' has no entry point in its import metadata"
  | nonBlittableReturn m t =>
    "The return type '" ++ t ++ "' of pinvoke callback method '" ++ m ++ "' needs to be blittable."
  | nonBlittableParameter m i t =>
    "Parameter " ++ toString i ++ " of type '" ++ t ++ "' of pinvoke callback method '" ++ m ++
      "' needs to be blittable."
  | duplicateTrampoline n => "Two callbacks with the same name '" ++ n ++ "' are not supported."
  | noOutputPath => "No output path configured"

/-- The sentence as part of another text: a malformation is announced as one. -/
def report : Fault → String
  | malformed cause => "Malformed: " ++ cause.message
  | fault => fault.message

end Fault

end InteropTables
