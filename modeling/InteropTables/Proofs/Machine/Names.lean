import InteropTables.Assembly.Load
import InteropTables.Proofs.Machine.Heaps
import InteropTables.Proofs.Machine.Signature

/-!
# Naming types on a machine of words

The machine names nested types and the types of a signature with a depth that grows, where the
library has room that shrinks. A depth beyond the limit is a trap, so that no run goes deeper than
the level that is refused, whether rows and specifications run in circles or not.

* `referenceName`, `definitionName`, `describeWithin`: the three ways of going deeper;
* `referenceName_follows`, `definitionName_follows`, `describeWithin_follows`: **depth and room add
  up to the limit, so each follows the library**;
* `ShortBlobs`: the signatures and specifications of a module are small enough to read;
* `methodDescriptor_follows`: a method with all its types named.
-/

namespace InteropTables

namespace Machine

/-! ## 1. Nested types -/

/-- The fuel of a naming: every level up to the limit, and the one that is refused. -/
def namingFuel : Nat :=
  namingLimit + 1

/-- The names of a type reference at a depth. -/
def referenceName (rows : Array TypeRefRow) (strings : StringHeap) :
    (fuel depth : Nat) → TypeRefRow → Run TypeName
  | 0, _, _ => .trap .endless
  | fuel + 1, depth, row => do
    level namingLimit depth
    if namingLimit ≤ depth then .fail (.nestingLimit namingLimit)
    else do
      let name ← textAt strings row.name
      let space ← textAt strings row.space
      if row.scope.table = .typeRef ∧ row.scope.row ≠ 0 then do
        match rows[← sub row.scope.row 1]? with
        | none =>
          .fail (.malformed
            (.referenceScope (TableRow.token TypeRefRow row.number) row.scope.token))
        | some outer => do
          let enclosing ← referenceName rows strings fuel (← add 8 depth 1) outer
          return enclosing.nestedIn name
      else return .topLevel space name

/-- The names of a type of the module at a depth. -/
def definitionName (rows : Array TypeDefRow) (enclosing : Array (Option Nat))
    (strings : StringHeap) : (fuel depth : Nat) → TypeDefRow → Run TypeName
  | 0, _, _ => .trap .endless
  | fuel + 1, depth, row => do
    level namingLimit depth
    if namingLimit ≤ depth then .fail (.nestingLimit namingLimit)
    else do
      let name ← textAt strings row.name
      match enclosing[row.number]?.join with
      | some outer =>
        match rowOf? rows outer with
        | none =>
          .fail (.malformed (.enclosingType (TableRow.token TypeDefRow row.number) outer))
        | some outerRow => do
          let around ← definitionName rows enclosing strings fuel (← add 8 depth 1) outerRow
          return around.nestedIn name
      | none => return .topLevel (← textAt strings row.space) name

section Nested

variable {strings : StringHeap} {room depth : Nat}

/-- **The names of a reference, when depth and room add up to the limit.** -/
theorem referenceName_follows (rows : Array TypeRefRow) (h : depth + room = namingLimit)
    (row : TypeRefRow) :
    Follows Eq (referenceName rows strings (room + 1) depth row)
      (InteropTables.referenceName rows strings room row) := by
  have hlimit : namingLimit = 64 := rfl
  have height := wordCount_eight
  induction room generalizing depth row with
  | zero =>
    rw [referenceName, level_of_le (by omega), Run.pure_then, if_pos (by omega)]
    exact follows_fail _
  | succ room ih =>
    rw [referenceName, level_of_le (by omega), Run.pure_then, if_neg (by omega),
      InteropTables.referenceName]
    refine (textAt_follows strings row.name).bind_eq fun name _ => ?_
    refine (textAt_follows strings row.space).bind_eq fun space _ => ?_
    refine .ite (fun hnested => ?_) fun _ => ?_
    · rw [sub_of_le (by omega), Run.pure_then, rowOf?, if_neg hnested.2]
      cases rows[row.scope.row - 1]? with
      | none => exact follows_fail _
      | some outer =>
        dsimp only
        rw [add_of_lt (by omega), Run.pure_then]
        exact (ih (by omega) outer).bind_eq fun enclosing _ => follows_pure rfl
    · exact follows_pure rfl

/-- **The names of a type of the module, when depth and room add up to the limit.** -/
theorem definitionName_follows (rows : Array TypeDefRow) (enclosing : Array (Option Nat))
    (h : depth + room = namingLimit) (row : TypeDefRow) :
    Follows Eq (definitionName rows enclosing strings (room + 1) depth row)
      (InteropTables.definitionName rows enclosing strings room row) := by
  have hlimit : namingLimit = 64 := rfl
  have height := wordCount_eight
  induction room generalizing depth row with
  | zero =>
    rw [definitionName, level_of_le (by omega), Run.pure_then, if_pos (by omega)]
    exact follows_fail _
  | succ room ih =>
    rw [definitionName, level_of_le (by omega), Run.pure_then, if_neg (by omega),
      InteropTables.definitionName]
    refine (textAt_follows strings row.name).bind_eq fun name _ => ?_
    cases enclosing[row.number]?.join with
    | none => exact (textAt_follows strings row.space).bind_eq fun space _ => follows_pure rfl
    | some outer =>
      dsimp only
      cases rowOf? rows outer with
      | none => exact follows_fail _
      | some outerRow =>
        dsimp only
        rw [add_of_lt (by omega), Run.pure_then]
        exact (ih (by omega) outerRow).bind_eq fun around _ => follows_pure rfl

end Nested

/-! ## 2. The types of a signature -/

/-- An array of values of a type; the commas are one fewer than its rank. -/
def makeArray (t : TypeDescriptor) (rank : Nat) : Run TypeDescriptor :=
  if rank = 0 then return t.withSuffix "[]" .array
  else if rank = 1 then return t.withSuffix "[*]" .array
  else do
    let commas ← sub rank 1
    return t.withSuffix ("[" ++ String.ofList (List.replicate commas ',') ++ "]") .array

theorem makeArray_eq (t : TypeDescriptor) (rank : Nat) :
    makeArray t rank = pure (t.array rank) := by
  match rank with
  | 0 => rfl
  | 1 => rfl
  | rank + 2 =>
    rw [makeArray, if_neg (by omega), if_neg (by omega), sub_of_le (by omega)]
    rfl

/-- The names of a row that a token refers to, if there is such a row. -/
def namedBy (token : Token) (isValueType : Bool) : Option TypeName → Run TypeDescriptor
  | some name => return .named name isValueType
  | none => .fail (.malformed (.typeToken token))

/-- The names of the type that a token refers to, at a depth. -/
def describeToken (a : Assembly) (inner : (depth : Nat) → SigType → Run TypeDescriptor)
    (token : Token) (isValueType : Bool) (depth : Nat) : Run TypeDescriptor := do
  level namingLimit depth
  match token.table with
  | 0x02 => namedBy token isValueType ((rowOf? a.types token.row).map (·.name))
  | 0x01 => namedBy token isValueType (rowOf? a.references token.row)
  | 0x1B =>
    match rowOf? a.specifications token.row with
    | some blob => do
      let type ← decodeType blob
      inner (← add 8 depth 1) type
    | none => .fail (.malformed (.typeSpecification token))
  | _ => namedBy token isValueType none

/-- The names of a type at a depth. -/
def describeWithin (a : Assembly) : (fuel depth : Nat) → SigType → Run TypeDescriptor
  | 0, _, _ => .trap .endless
  | fuel + 1, depth, type => do
    level namingLimit depth
    if namingLimit ≤ depth then .fail (.nestingLimit namingLimit)
    else
      match type with
      | .element e => return e.describe
      | .pointer t => do return (← describeWithin a fuel (← add 8 depth 1) t).pointer
      | .byRef t => do return (← describeWithin a fuel (← add 8 depth 1) t).byRef
      | .pinned t => do describeWithin a fuel (← add 8 depth 1) t
      | .valueType token => describeToken a (describeWithin a fuel) token true depth
      | .classType token => describeToken a (describeWithin a fuel) token false depth
      | .typeVariable i => return .genericParameter i false
      | .methodVariable i => return .genericParameter i true
      | .array t rank => do
        makeArray (← describeWithin a fuel (← add 8 depth 1) t) (max rank 1)
      | .vector t => do makeArray (← describeWithin a fuel (← add 8 depth 1) t) 0
      | .instantiation t ts => do
        let base ← describeWithin a fuel (← add 8 depth 1) t
        let arguments ← ts.mapM fun t => do describeWithin a fuel (← add 8 depth 1) t
        return base.instantiate arguments
      | .functionPointer _ => return .functionPointer

/-- The names of the type that a token refers to. -/
def describeRow (a : Assembly) (token : Token) (isValueType : Bool) : Run TypeDescriptor :=
  describeToken a (describeWithin a namingFuel) token isValueType 0

/-- The names of the type of a parameter or result. -/
def describeParameter (a : Assembly) (p : SigParam) : Run TypeDescriptor := do
  let type ← describeWithin a namingFuel 0 p.type
  return if p.byRef then type.byRef else type

/-- A method with the names of all types in its signature. -/
def methodDescriptor (a : Assembly) (index : Nat) : Run MethodDescriptor :=
  match a.methods[index]? with
  | none => .fail (.malformed (.methodIndex index))
  | some m =>
    match a.declaringType? m with
    | none => .fail (.malformed (.orphanMethod m.token))
    | some declaring => do
      let signature ← decodeMethod m.signature
      let result ← describeParameter a signature.result
      let parameters ← signature.arguments.mapM (describeParameter a)
      return {
        declaring := declaring.name
        name := m.name
        result, parameters
        identity := a.identity
        token := m.token }

/-- The blobs that a module keeps are short. -/
structure ShortBlobs (a : Assembly) : Prop where
  specification : ∀ blob ∈ a.specifications, blob.size < wordCount 4
  signature : ∀ m ∈ a.methods, m.signature.size < wordCount 4

section Signatures

variable {a : Assembly} {room depth : Nat}

theorem library_token (a : Assembly) (inner : SigType → Except Fault TypeDescriptor)
    (token : Token) (isValueType : Bool) : a.describeToken inner token isValueType =
    let named (name? : Option TypeName) : Except Fault TypeDescriptor :=
      match name? with
      | some name => .ok (.named name isValueType)
      | none => .error (.malformed (.typeToken token))
    match token.table with
    | 0x02 => named ((rowOf? a.types token.row).map (·.name))
    | 0x01 => named (rowOf? a.references token.row)
    | 0x1B =>
      match rowOf? a.specifications token.row with
      | some blob => Signature.decodeType blob >>= inner
      | none => .error (.malformed (.typeSpecification token))
    | _ => named none := rfl

theorem namedBy_follows (token : Token) (isValueType : Bool) (name? : Option TypeName) :
    Follows Eq (namedBy token isValueType name?)
      (match name? with
      | some name => .ok (.named name isValueType)
      | none => .error (.malformed (.typeToken token))) := by
  cases name? with
  | none => exact follows_fail _
  | some name => exact follows_pure rfl

/-- A token is described at a depth as the library describes it, given that inner types are. -/
theorem describeToken_follows (ha : ShortBlobs a)
    {inner : (depth : Nat) → SigType → Run TypeDescriptor}
    {innerLibrary : SigType → Except Fault TypeDescriptor} (hdepth : depth < namingLimit)
    (hinner : ∀ type, Follows Eq (inner (depth + 1) type) (innerLibrary type))
    (token : Token) (isValueType : Bool) :
    Follows Eq (describeToken a inner token isValueType depth)
      (a.describeToken innerLibrary token isValueType) := by
  have hlimit : namingLimit = 64 := rfl
  have height := wordCount_eight
  rw [describeToken, level_of_le (by omega), Run.pure_then, library_token]
  dsimp only
  split
  · exact namedBy_follows token isValueType _
  · exact namedBy_follows token isValueType _
  · cases hblob : rowOf? a.specifications token.row with
    | none => exact follows_fail _
    | some blob =>
      dsimp only
      rw [add_of_lt (by omega)]
      exact (decodeType_follows (ha.specification blob (mem_of_rowOf? hblob))).bind_eq
        fun type _ => hinner type
  · exact namedBy_follows token isValueType none

/-- **The names of a type, when depth and room add up to the limit.** -/
theorem describeWithin_follows (ha : ShortBlobs a) {fuel : Nat} (hfuel : room < fuel)
    (h : depth + room = namingLimit) (type : SigType) :
    Follows Eq (describeWithin a fuel depth type) (a.describeWithin room type) := by
  have hlimit : namingLimit = 64 := rfl
  have height := wordCount_eight
  obtain ⟨fuel, rfl⟩ : ∃ n, fuel = n + 1 := ⟨fuel - 1, by omega⟩
  induction room generalizing fuel depth type with
  | zero =>
    rw [describeWithin.eq_def]
    dsimp only
    rw [level_of_le (by omega), Run.pure_then, if_pos (by omega)]
    exact follows_fail _
  | succ room ih =>
    obtain ⟨fuel, rfl⟩ : ∃ n, fuel = n + 1 := ⟨fuel - 1, by omega⟩
    have hdeeper : add 8 depth 1 = pure (depth + 1) := add_of_lt (by omega)
    have hinner : ∀ type, Follows Eq (describeWithin a (fuel + 1) (depth + 1) type)
        (a.describeWithin room type) := fun type => ih (by omega) type fuel (by omega)
    rw [describeWithin.eq_def]
    dsimp only
    rw [level_of_le (by omega), Run.pure_then, if_neg (by omega), hdeeper]
    cases type with
    | element e => exact follows_pure rfl
    | pointer t => exact (hinner t).map_eq _
    | byRef t => exact (hinner t).map_eq _
    | pinned t => exact hinner t
    | valueType token => exact describeToken_follows ha (by omega) hinner token true
    | classType token => exact describeToken_follows ha (by omega) hinner token false
    | typeVariable i => exact follows_pure rfl
    | methodVariable i => exact follows_pure rfl
    | array t rank =>
      simp only [Run.pure_then, makeArray_eq]
      exact (hinner t).map_eq _
    | vector t =>
      simp only [Run.pure_then, makeArray_eq]
      exact (hinner t).map_eq _
    | instantiation t ts =>
      simp only [Run.pure_then]
      refine (hinner t).bind_eq fun base _ => ?_
      exact (Follows.mapM fun t _ => hinner t).bind_eq fun arguments _ => follows_pure rfl
    | functionPointer m => exact follows_pure rfl

theorem describeRow_follows (ha : ShortBlobs a) (token : Token) (isValueType : Bool) :
    Follows Eq (describeRow a token isValueType) (a.describeRow token isValueType) :=
  describeToken_follows ha (by decide)
    (fun type => describeWithin_follows ha (by decide) (by decide) type) token isValueType

theorem describeParameter_follows (ha : ShortBlobs a) (p : SigParam) :
    Follows Eq (describeParameter a p) (a.describeParameter p) :=
  (describeWithin_follows ha (Nat.lt_succ_self _) (Nat.zero_add namingLimit) p.type).map_eq _

/-- **A method is described as the library describes it.** -/
theorem methodDescriptor_follows (ha : ShortBlobs a) (index : Nat) :
    Follows Eq (methodDescriptor a index) (a.methodDescriptor index) := by
  rw [methodDescriptor, Assembly.methodDescriptor]
  cases hm : a.methods[index]? with
  | none => exact follows_fail _
  | some m =>
    dsimp only
    cases a.declaringType? m with
    | none => exact follows_fail _
    | some declaring =>
      have hm : m ∈ a.methods := Array.mem_of_getElem? hm
      refine (decodeMethod_follows (ha.signature m hm)).bind_eq fun signature _ => ?_
      refine (describeParameter_follows ha signature.result).bind_eq fun result _ => ?_
      refine (Follows.mapM fun p _ => describeParameter_follows ha p).bind_eq
        fun parameters _ => ?_
      exact follows_pure rfl

end Signatures

end Machine

end InteropTables
