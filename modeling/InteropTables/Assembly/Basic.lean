import InteropTables.Assembly.Descriptor

/-!
# A module as the library sees it

What remains of a module once its tables and heaps are read: its name, its types with the methods
they list, its methods with their native imports and attributes, and the names and blobs by which
signatures refer to other types.

* `MethodFlags`: the flags of a method without the bits for its accessibility;
* `NativeImport`, `Attribute`, `Method`, `TypeInfo`: the parts;
* `Assembly`: the module;
* `Assembly.visibleTypes`: the types without the one that holds global methods;
* `rowOf?`: the element for a one-based row number.
-/

namespace InteropTables

/-- The element for a one-based row number; row zero is no row. -/
def rowOf? {α : Type} (elements : Array α) (row : Nat) : Option α :=
  if row = 0 then none else elements[row - 1]?

theorem rowOf?_succ {α : Type} (elements : Array α) (i : Nat) :
    rowOf? elements (i + 1) = elements[i]? := by
  simp [rowOf?]

theorem rowOf?_isSome_iff {α : Type} (elements : Array α) (row : Nat) :
    (rowOf? elements row).isSome ↔ 1 ≤ row ∧ row ≤ elements.size := by
  unfold rowOf?
  split
  · simp [*]
  · simp
    omega

theorem mem_of_rowOf? {α : Type} {elements : Array α} {row : Nat} {e : α}
    (h : rowOf? elements row = some e) : e ∈ elements := by
  rw [rowOf?] at h
  split at h
  · cases h
  · exact Array.mem_of_getElem? h

/-! ## 1. Flags -/

/-- The flags of a method that are told apart. -/
inductive MethodFlag where
  | isStatic
  | final
  | virtual
  | hideBySignature
  | newSlot
  | strict
  | abstract
  | specialName
  | runtimeSpecialName
  | nativeImport
  | hasSecurity
  | requireSecurityObject
deriving DecidableEq, Repr

namespace MethodFlag

/-- All flags, by rising bit. -/
def all : List MethodFlag :=
  [isStatic, final, virtual, hideBySignature, newSlot, strict, abstract, specialName,
    runtimeSpecialName, nativeImport, hasSecurity, requireSecurityObject]

/-- The position of a flag among the bits. -/
def bit : MethodFlag → Nat
  | isStatic => 4
  | final => 5
  | virtual => 6
  | hideBySignature => 7
  | newSlot => 8
  | strict => 9
  | abstract => 10
  | specialName => 11
  | runtimeSpecialName => 12
  | nativeImport => 13
  | hasSecurity => 14
  | requireSecurityObject => 15

end MethodFlag

/-- A set of flags of a method. -/
structure MethodFlags where
  bits : Nat
deriving DecidableEq, Repr, Inhabited

namespace MethodFlags

/-- The bits of all flags. -/
def mask : Nat :=
  MethodFlag.all.foldl (fun bits flag => bits ||| 1 <<< flag.bit) 0

/-- The flags in a column; bits that are no flag, among them those for accessibility, are
dropped. -/
def ofColumn (column : Nat) : MethodFlags :=
  ⟨column &&& mask⟩

/-- Whether a flag is set. -/
def has (flags : MethodFlags) (flag : MethodFlag) : Bool :=
  flags.bits.testBit flag.bit

/-- The flags that are set, by rising bit. -/
def toList (flags : MethodFlags) : List MethodFlag :=
  MethodFlag.all.filter flags.has

end MethodFlags

/-! ## 2. Parts of a module -/

/-- The native function behind a method. -/
structure NativeImport where
  /-- The native module that exports the function. -/
  module : String
  /-- The name of the function. -/
  entryPoint : String
  flags : Nat
deriving DecidableEq, Repr, Inhabited

/-- An attribute of a method: the type that declares it, or why that type is not known. -/
inductive Attribute where
  | resolved (space name : String)
  | unresolved (reason : String)
deriving DecidableEq, Repr, Inhabited

/-- The namespace and name of the type of an attribute. -/
def Attribute.fullName? : Attribute → Option String
  | resolved space name => some (joinName space name)
  | unresolved _ => none

/-- A method. -/
structure Method where
  token : Token
  name : String
  flags : MethodFlags
  implFlags : Nat
  /-- The index of the type that lists the method. -/
  declaring : Option Nat := none
  /-- The blob with the types of result and parameters. -/
  signature : ByteArray
  imported : Option NativeImport := none
  attributes : Array Attribute := #[]

/-- The method is a native function. -/
def Method.isNative (m : Method) : Bool :=
  m.flags.has .nativeImport

/-- A type that the module defines. -/
structure TypeInfo where
  token : Token
  name : TypeName
  flags : Nat
  /-- The indices of the methods that the type lists. -/
  methods : List Nat := []
deriving DecidableEq, Repr, Inhabited

/-! ## 3. Modules -/

/-- A module. -/
structure Assembly where
  /-- The name of the assembly, or of the module if it belongs to none. -/
  identity : String
  /-- The types in the order of their rows. -/
  types : Array TypeInfo
  /-- The methods in the order of their rows. -/
  methods : Array Method
  /-- The names of the types defined elsewhere, in the order of their rows. -/
  references : Array TypeName
  /-- The blobs of the type specifications, in the order of their rows. -/
  specifications : Array ByteArray

namespace Assembly

/-- The types without the first row, which holds global methods. -/
def visibleTypes (a : Assembly) : List TypeInfo :=
  a.types.toList.filter fun t => t.token.row != 1

end Assembly

end InteropTables
