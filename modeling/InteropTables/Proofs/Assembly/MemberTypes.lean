import InteropTables.Assembly.Load
import InteropTables.Proofs.Metadata.CodedColumns

/-!
# The types behind the constructors of attributes

A constructor that is declared outside the module is a member of some type, which a coded column
names by table and row. The column holds rows of up to 29 bits. The type is looked up by the token
of the two, though, and a token holds rows of 24 bits: what is found is the row that is left when
all higher bits are cut off.

* `CodedIndex.table_token`, `CodedIndex.row_token`: what a token keeps of a reference;
* `Assembly.typeNames`, `Assembly.attributeOf`: the types of a table, and the attribute for a row;
* `attributeOf_resolved_iff`: an attribute is known exactly for the rows of the table;
* `resolve_finds_cut_row`: **the type that is found is that of the cut row**;
* `resolve_beyond_rows`: a row far beyond the last one, for which a type is found.
-/

namespace InteropTables

/-! ## 1. References as tokens -/

namespace CodedIndex

variable (i : CodedIndex)

theorem table_token : i.token.table = i.table.number :=
  Token.table_ofParts (Nat.lt_trans i.table.number_lt (by decide))

theorem row_token : i.token.row = i.row % Token.rowSpan :=
  Token.row_ofParts (Nat.lt_trans i.table.number_lt (by decide))

/-- The token keeps the row exactly if 24 bits hold it. -/
theorem row_token_eq_iff : i.token.row = i.row ↔ i.row < Token.rowSpan := by
  rw [row_token]
  exact Nat.mod_eq_iff_lt (Nat.ne_of_gt Token.rowSpan_pos)

end CodedIndex

/-! ## 2. Types by table and row -/

theorem rowOf?_map {α β : Type} (f : α → β) (elements : Array α) (row : Nat) :
    rowOf? (elements.map f) row = (rowOf? elements row).map f := by
  unfold rowOf?
  split
  · rfl
  · exact Array.getElem?_map

namespace Assembly

variable {a : Assembly}

/-- The names of the types in a table, of those that are defined here or elsewhere. -/
def typeNames (a : Assembly) : TableId → Array TypeName
  | .typeDef => a.types.map (·.name)
  | .typeRef => a.references
  | _ => #[]

/-- The attribute that is declared by the type in a row of a table, or the complaint about the row
if there is none. -/
def attributeOf (a : Assembly) (t : TableId) (row : Nat) : Attribute :=
  match rowOf? (a.typeNames t) row with
  | some name => .resolved name.space name.name
  | none => .unresolved (Fault.malformed (.typeToken (Token.ofParts t.number row))).report

/-- **An attribute is known exactly for the rows of the table.** -/
theorem attributeOf_resolved_iff (t : TableId) (row : Nat) :
    (∃ space name, a.attributeOf t row = .resolved space name) ↔
      1 ≤ row ∧ row ≤ (a.typeNames t).size := by
  rw [← rowOf?_isSome_iff, attributeOf]
  cases rowOf? (a.typeNames t) row with
  | some name => exact iff_of_true ⟨_, _, rfl⟩ rfl
  | none => exact iff_of_false (fun ⟨_, _, h⟩ => by cases h) (fun h => by cases h)

/-- A token of a definition or of a reference is named as its row, whatever types may be inside. -/
theorem describeToken_of_table {t : TableId} (ht : t = .typeDef ∨ t = .typeRef) {token : Token}
    (htoken : token.table = t.number) (inner : SigType → Except Fault TypeDescriptor)
    (isValueType : Bool) :
    a.describeToken inner token isValueType
      = match rowOf? (a.typeNames t) token.row with
        | some name => .ok (.named name isValueType)
        | none => .error (.malformed (.typeToken token)) := by
  rw [describeToken, htoken]
  obtain rfl | rfl := ht
  · rw [typeNames, rowOf?_map]
    rfl
  · rfl

/-- Naming a row by its token finds the name in the cut row. -/
theorem describeRow_token {t : TableId} (ht : t = .typeDef ∨ t = .typeRef) (r : Nat) :
    a.describeRow (CodedIndex.token ⟨t, r⟩) false
      = match rowOf? (a.typeNames t) (r % Token.rowSpan) with
        | some name => .ok (.named name false)
        | none => .error (.malformed (.typeToken (CodedIndex.token ⟨t, r⟩))) := by
  rw [describeRow, describeToken_of_table ht (CodedIndex.table_token _), CodedIndex.row_token]

/-! ## 3. Constructors declared elsewhere -/

variable {members : Table MemberRefRow} {strings : StringHeap} {made : CodedIndex}
  {member : MemberRefRow} {t : TableId} {r : Nat}

/-- The type of a member is looked up by the token of its row. -/
theorem resolve_memberRef (hmade : made.table = .memberRef)
    (hmember : members.get made.row = .ok member) (ht : t = .typeDef ∨ t = .typeRef)
    (hparent : member.parent = ⟨t, r⟩) :
    a.resolve (some members) strings made = a.attributeOf t (r % Token.rowSpan) := by
  have hnames : t ∈ [TableId.typeDef, .typeRef, .typeSpec] := by
    obtain rfl | rfl := ht <;> decide
  have htoken : CodedIndex.token ⟨t, r⟩ = Token.ofParts t.number (r % Token.rowSpan) := by
    rw [CodedIndex.token, Token.ofParts, Token.ofParts, Nat.mod_mod]
  simp only [resolve, hmade, Option.bind_some, hmember, Except.toOption, hparent, if_pos hnames,
    describeRow_token ht, attributeOf, ← htoken]
  cases rowOf? (a.typeNames t) (r % Token.rowSpan) <;> rfl

/-- **The type that is found is that of the cut row.** So a row that 24 bits hold gives the type in
this row of its table, or none if the table is too short. Any other row gives the type in the row
that is left of it, wherever the table ends, because its token is that of the row that is left. -/
theorem resolve_finds_cut_row (hmade : made.table = .memberRef)
    (hmember : members.get made.row = .ok member) (ht : t = .typeDef ∨ t = .typeRef)
    (hparent : member.parent = ⟨t, r⟩) :
    a.resolve (some members) strings made = a.attributeOf t (r % Token.rowSpan) ∧
    ((∃ space name, a.resolve (some members) strings made = .resolved space name) ↔
      1 ≤ r % Token.rowSpan ∧ r % Token.rowSpan ≤ (a.typeNames t).size) ∧
    (r < Token.rowSpan →
      a.resolve (some members) strings made = a.attributeOf t r ∧
      ((∃ space name, a.resolve (some members) strings made = .resolved space name) ↔
        1 ≤ r ∧ r ≤ (a.typeNames t).size)) ∧
    member.parent.token.table = t.number ∧
    (member.parent.token.row = r ↔ r < Token.rowSpan) := by
  have hfound : a.resolve (some members) strings made = a.attributeOf t (r % Token.rowSpan) :=
    resolve_memberRef hmade hmember ht hparent
  have hresolved : ∀ row, a.resolve (some members) strings made = a.attributeOf t row →
      ((∃ space name, a.resolve (some members) strings made = .resolved space name) ↔
        1 ≤ row ∧ row ≤ (a.typeNames t).size) := by
    intro row h
    rw [h]
    exact attributeOf_resolved_iff t row
  refine ⟨hfound, hresolved _ hfound, fun hfits => ?_, ?_, ?_⟩
  · rw [Nat.mod_eq_of_lt hfits] at hfound
    exact ⟨hfound, hresolved _ hfound⟩
  · rw [hparent]
    exact CodedIndex.table_token _
  · rw [hparent]
    exact CodedIndex.row_token_eq_iff ⟨t, r⟩

/-- A module with one type of its own and one from elsewhere. -/
def twoTypes : Assembly where
  identity := "App"
  types := #[⟨⟨0x02000001⟩, .topLevel "App" "Startup", 0, []⟩]
  methods := #[]
  references := #[.topLevel "System" "ObsoleteAttribute"]
  specifications := #[]

/-- A constructor of the type from elsewhere, and one of definition `0x1000001`. There are so many
native modules that a reference to what declares a member takes four bytes. -/
def twoConstructors : Table MemberRefRow where
  sizes := .only .moduleRef 8192
  data := Bytes.ofList [0x09, 0, 0, 0, 1, 0, 1, 0, 0x08, 0, 0, 0x08, 1, 0, 1, 0]
  start := 0
  rowCount := 2

/-- The first constructor leads to the type from elsewhere, as it should. -/
theorem resolve_finds_cut_row_reference :
    twoConstructors.get 1 = .ok ⟨1, ⟨.typeRef, 1⟩, 1, 1⟩ ∧
    twoTypes.resolve (some twoConstructors) ⟨Bytes.ofList [0]⟩ ⟨.memberRef, 1⟩
      = .resolved "System" "ObsoleteAttribute" ∧
    (CodedIndex.token ⟨.typeRef, 1⟩).row = 1 := by
  have hmember : twoConstructors.get 1 = .ok ⟨1, ⟨.typeRef, 1⟩, 1, 1⟩ := rfl
  obtain ⟨-, -, hplain, -, hrow⟩ := @resolve_finds_cut_row twoTypes twoConstructors
    ⟨Bytes.ofList [0]⟩ ⟨.memberRef, 1⟩ _ .typeRef 1 rfl hmember (.inr rfl) rfl
  exact ⟨hmember, (hplain (by decide)).1, hrow.2 (by decide)⟩

/-- **A type is found for a row far beyond the last one.** The second constructor is one of a type
that no row defines, and leads to the only type that there is. -/
theorem resolve_beyond_rows :
    (∃ member, twoConstructors.get 2 = .ok member ∧ member.parent = ⟨.typeDef, 0x1000001⟩) ∧
    (twoTypes.typeNames .typeDef).size = 1 ∧
    twoTypes.resolve (some twoConstructors) ⟨Bytes.ofList [0]⟩ ⟨.memberRef, 2⟩
      = .resolved "App" "Startup" ∧
    (CodedIndex.token ⟨.typeDef, 0x1000001⟩).row = 1 := by
  refine ⟨⟨⟨2, ⟨.typeDef, 0x1000001⟩, 1, 1⟩, rfl, rfl⟩, ?_, rfl, rfl⟩
  rw [typeNames, Array.size_map]
  rfl

end Assembly

end InteropTables
