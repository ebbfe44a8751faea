import InteropTables.Assembly.Describe
import InteropTables.Metadata.Heap
import InteropTables.Metadata.Table

/-!
# Names of nested types

A type inside another one is named behind it; its namespace is that of the outermost type. Types
of the module are nested by rows of their own, references by their scope. Both kinds of link may
run in circles, so the levels followed are bounded by `namingLimit`.

* `referenceName`: the names of a type reference;
* `enclosingTypes`: which type lies in which, the last row for a type deciding;
* `definitionName`: the names of a type of the module.
-/

namespace InteropTables

/-! ## 1. References -/

/-- The names of a type reference, when at most `room` levels may be followed. A reference inside
another has a scope in the table of references. -/
def referenceName (rows : Array TypeRefRow) (strings : StringHeap) :
    (room : Nat) → TypeRefRow → Except Fault TypeName
  | 0, _ => .error (.nestingLimit namingLimit)
  | room + 1, row => do
    let name ← strings.get row.name
    let space ← strings.get row.space
    if row.scope.table = .typeRef ∧ row.scope.row ≠ 0 then
      match rowOf? rows row.scope.row with
      | none =>
        throw (.malformed (.referenceScope (TableRow.token TypeRefRow row.number) row.scope.token))
      | some outer => return (← referenceName rows strings room outer).nestedIn name
    else
      return .topLevel space name

/-! ## 2. Definitions -/

/-- For every type row its enclosing type row, if there is one; the place of number zero is not
used. A later row for the same type replaces an earlier one. -/
def enclosingTypes (count : Nat) (rows : List NestedClassRow) : Array (Option Nat) :=
  rows.foldl (fun enclosing row => enclosing.setIfInBounds row.nested (some row.enclosing))
    (Array.replicate (count + 1) none)

/-- The names of a type of the module, when at most `room` levels may be followed. -/
def definitionName (rows : Array TypeDefRow) (enclosing : Array (Option Nat))
    (strings : StringHeap) : (room : Nat) → TypeDefRow → Except Fault TypeName
  | 0, _ => .error (.nestingLimit namingLimit)
  | room + 1, row => do
    let name ← strings.get row.name
    match enclosing[row.number]?.join with
    | some outer =>
      match rowOf? rows outer with
      | none => throw (.malformed (.enclosingType (TableRow.token TypeDefRow row.number) outer))
      | some outerRow =>
        return (← definitionName rows enclosing strings room outerRow).nestedIn name
    | none => return .topLevel (← strings.get row.space) name

end InteropTables
