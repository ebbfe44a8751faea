import InteropTables.Proofs.Assembly.LoadedNames
import InteropTables.Proofs.Lists

/-!
# Types that are known by name

The void type and the primitive types are known by their namespace and their simple name. For a type
that lies in no other and has a namespace this is the same as to know them by their full name: there
is no dot in their names nor in their namespace, so their full names fall apart in one way.

* `joinName_inj`: **names without dots are joined in one way**, behind a namespace;
* `flavorOf_eq_void_iff`, `flavorOf_eq_primitive_iff`: the two kinds that are known by name;
* `flavor_eq_void_iff_full`, `flavor_eq_primitive_iff_full`: the same by the full name;
* `isBlittable_named_iff`: among the types that rows name, only primitive ones pass by value;
* `Assembly.known_types`: **which rows are named as the void type and as primitive types**;
* `Assembly.known_types_by_parts`: a full name like that of a primitive type is not enough.
-/

namespace InteropTables

/-! ## 1. Full names -/

/-- **Names without dots are joined in one way**, behind a namespace: a text with one dot in it
leaves none for what stands in front of the dot or behind it. -/
theorem joinName_inj {space name space' name' : String} (hspace : space ≠ "")
    (hspace' : space' ≠ "") (hdot : '.' ∉ space'.toList) (hdot' : '.' ∉ name'.toList) :
    joinName space name = joinName space' name' ↔ space = space' ∧ name = name' := by
  refine ⟨fun h => ?_, fun ⟨hs, hn⟩ => hs ▸ hn ▸ rfl⟩
  have hlists : space.toList ++ '.' :: name.toList = space'.toList ++ '.' :: name'.toList := by
    have htexts := congrArg String.toList h
    simpa [joinName, hspace, hspace'] using htexts
  have hcount := congrArg (List.count '.') hlists
  simp only [List.count_append, List.count_cons_self, List.count_eq_zero_of_not_mem hdot,
    List.count_eq_zero_of_not_mem hdot'] at hcount
  have hnone : '.' ∉ space.toList := List.count_eq_zero.1 (by omega)
  obtain ⟨hs, hn⟩ := append_cons_inj hnone hdot hlists
  exact ⟨String.toList_inj.1 hs, String.toList_inj.1 hn⟩

/-! ## 2. Kinds that are known by name -/

namespace TypeDescriptor

variable {name : TypeName} {isValueType : Bool}

theorem flavorOf_eq_void_iff :
    flavorOf name isValueType = .void ↔ name.space = systemSpace ∧ name.name = voidName := by
  unfold flavorOf
  split_ifs <;> simp_all

theorem flavorOf_eq_primitive_iff :
    flavorOf name isValueType = .primitive ↔
      name.space = systemSpace ∧ name.name ∈ primitiveNames := by
  have hvoid : voidName ∉ primitiveNames := by decide
  unfold flavorOf
  split_ifs with h <;> simp_all

/-- Among the types that rows name, only primitive ones pass by value. -/
theorem isBlittable_named_iff :
    (named name isValueType).isBlittable ↔ (named name isValueType).flavor = .primitive := by
  unfold isBlittable named flavorOf
  split_ifs <;> simp

/-- Behind a namespace, a full name tells the void type and the primitive types. -/
theorem joinName_eq_known_iff {space simple known : String} (hspace : space ≠ "")
    (hknown : known ∈ voidName :: primitiveNames) :
    joinName space simple = "System." ++ known ↔ space = systemSpace ∧ simple = known := by
  have hdot : ∀ known ∈ voidName :: primitiveNames, '.' ∉ known.toList := by decide
  have hsystem : "System." ++ known = joinName systemSpace known := rfl
  rw [hsystem]
  exact joinName_inj hspace (by decide) (by decide) (hdot known hknown)

section Top

variable {p : TypePath} (htop : ¬ p.IsNested) (hspace : p.space ≠ "")

include htop hspace

theorem flavor_eq_void_iff_full :
    (named p.toName isValueType).flavor = .void ↔ p.full = "System.Void" := by
  have hjoin : joinName p.space p.name = "System." ++ voidName ↔ _ :=
    joinName_eq_known_iff hspace (List.mem_cons_self ..)
  rw [TypePath.full_of_not_isNested htop, ← TypePath.name_of_not_isNested htop]
  exact flavorOf_eq_void_iff.trans hjoin.symm

theorem flavor_eq_primitive_iff_full :
    (named p.toName isValueType).flavor = .primitive ↔
      ∃ known ∈ primitiveNames, p.full = "System." ++ known := by
  have hfull : ∀ known ∈ primitiveNames, p.full = "System." ++ known ↔
      p.space = systemSpace ∧ p.name = known := by
    intro known hknown
    rw [TypePath.full_of_not_isNested htop, ← TypePath.name_of_not_isNested htop]
    exact joinName_eq_known_iff hspace (List.mem_cons_of_mem _ hknown)
  refine flavorOf_eq_primitive_iff.trans ⟨?_, ?_⟩
  · rintro ⟨hsystem, hmem⟩
    exact ⟨p.name, hmem, (hfull _ hmem).2 ⟨hsystem, rfl⟩⟩
  · rintro ⟨known, hknown, h⟩
    obtain ⟨hsystem, hname⟩ := (hfull known hknown).1 h
    have hmem : p.name ∈ primitiveNames := hname ▸ hknown
    exact ⟨hsystem, hmem⟩

end Top

end TypeDescriptor

/-! ## 3. Rows of loaded modules -/

open TypeDescriptor

namespace Assembly

variable {streams : MetadataStreams} {a : Assembly} {events : List Event} {tables : TableStream}
  {strings : StringHeap}

/-- A token of a definition or of a reference is named exactly if its row lies on a path, and then
by this path. -/
theorem describeToken_eq_ok_iff (hload : ofStreams streams = .ok (a, events))
    (htables : streams.tables = some tables) (hstrings : streams.strings = some strings)
    {t : TableId} (ht : t = .typeDef ∨ t = .typeRef) {token : Token}
    (htoken : token.table = t.number) (inner : SigType → Except Fault TypeDescriptor)
    (isValueType : Bool) (d : TypeDescriptor) :
    a.describeToken inner token isValueType = .ok d ↔
      ∃ p, tables.TypeAt strings t token.row p ∧ d = .named p.toName isValueType := by
  have hnames : ∀ name, rowOf? (a.typeNames t) token.row = some name ↔
      ∃ p, tables.TypeAt strings t token.row p ∧ name = p.toName :=
    fun _ => rowOf?_typeNames_iff hload htables hstrings
  rw [describeToken_of_table ht htoken]
  cases hrow : rowOf? (a.typeNames t) token.row with
  | none =>
    refine iff_of_false (fun h => nomatch h) ?_
    rintro ⟨p, hp, -⟩
    cases hrow.symm.trans ((hnames _).2 ⟨p, hp, rfl⟩)
  | some name =>
    constructor
    · intro h
      obtain ⟨p, hp, rfl⟩ := (hnames name).1 hrow
      exact ⟨p, hp, (Except.ok.inj h).symm⟩
    · rintro ⟨p, hp, rfl⟩
      rw [Option.some.inj (hrow.symm.trans ((hnames _).2 ⟨p, hp, rfl⟩))]

/-- **Which rows are named as the void type and as primitive types.** A token of a definition or of
a reference is named exactly if its row lies on a path, and has the names of the path. It can be
void or primitive only if the outermost type is in the namespace of these types and its own simple
name is one of theirs. Among the types that lie in no other and have a namespace, those are void or
primitive whose full name is that of the void type or of a primitive type. And no type that a row
names passes by value unless it is primitive. -/
theorem known_types (hload : ofStreams streams = .ok (a, events))
    (htables : streams.tables = some tables) (hstrings : streams.strings = some strings)
    {t : TableId} (ht : t = .typeDef ∨ t = .typeRef) {token : Token}
    (htoken : token.table = t.number) (inner : SigType → Except Fault TypeDescriptor)
    (isValueType : Bool) :
    ((∃ d, a.describeToken inner token isValueType = .ok d) ↔
      ∃ p, tables.TypeAt strings t token.row p) ∧
    ∀ d p, a.describeToken inner token isValueType = .ok d →
      tables.TypeAt strings t token.row p →
      d.toTypeName = p.toName ∧
      (d.flavor = .void → p.space = "System" ∧ p.name = "Void") ∧
      (d.flavor = .primitive → p.space = "System" ∧ p.name ∈ primitiveNames) ∧
      (¬ p.IsNested → p.space ≠ "" →
        (d.flavor = .void ↔ p.full = "System.Void") ∧
        (d.flavor = .primitive ↔ ∃ known ∈ primitiveNames, p.full = "System." ++ known)) ∧
      (d.isBlittable ↔ d.flavor = .primitive) := by
  have hok := describeToken_eq_ok_iff hload htables hstrings ht htoken inner isValueType
  refine ⟨?_, fun d p hd hp => ?_⟩
  · constructor
    · rintro ⟨d, hd⟩
      obtain ⟨p, hp, -⟩ := (hok d).1 hd
      exact ⟨p, hp⟩
    · rintro ⟨p, hp⟩
      exact ⟨_, (hok _).2 ⟨p, hp, rfl⟩⟩
  · obtain rfl : d = .named p.toName isValueType := by
      rw [(hok _).2 ⟨p, hp, rfl⟩] at hd
      exact (Except.ok.inj hd).symm
    refine ⟨rfl, flavorOf_eq_void_iff.1, flavorOf_eq_primitive_iff.1, fun htop hspace => ?_,
      isBlittable_named_iff⟩
    exact ⟨flavor_eq_void_iff_full htop hspace, flavor_eq_primitive_iff_full htop hspace⟩

/-- The names of the references of the small module. -/
def systemNames : Array TypeName :=
  #[.topLevel "System" "Outer", (TypeName.topLevel "System" "Outer").nestedIn "Int32",
    .topLevel "" "System.Int32", .topLevel "System" "Int32"]

theorem exists_systemReferences :
    ∃ a events tables strings, ofStreams (nestedStreams systemReferences) = .ok (a, events) ∧
      (nestedStreams systemReferences).tables = some tables ∧
      (nestedStreams systemReferences).strings = some strings ∧
      a.typeNames .typeRef = systemNames := by
  obtain ⟨a, events, tables, strings, hload, htables, hstrings, h⟩ := exists_loaded
    (nestedStreams systemReferences) (p := fun a _ _ => a.typeNames .typeRef == systemNames)
    (by decide +kernel)
  exact ⟨a, events, tables, strings, hload, htables, hstrings, eq_of_beq h⟩

/-- The fourth reference is `Int32` in the namespace of the primitive types. -/
theorem known_types_reference :
    ∃ a events tables strings, ofStreams (nestedStreams systemReferences) = .ok (a, events) ∧
      (nestedStreams systemReferences).tables = some tables ∧
      (nestedStreams systemReferences).strings = some strings ∧
      ∃ d p, a.describeRow ⟨0x01000004⟩ true = .ok d ∧ tables.TypeAt strings .typeRef 4 p ∧
        ¬ p.IsNested ∧ p.full = "System.Int32" ∧ d.flavor = .primitive ∧ d.isBlittable := by
  obtain ⟨a, events, tables, strings, hload, htables, hstrings, hnames⟩ := exists_systemReferences
  have htoken : (⟨0x01000004⟩ : Token).table = TableId.typeRef.number := by decide
  have hd : a.describeRow ⟨0x01000004⟩ true = .ok (.named (.topLevel "System" "Int32") true) := by
    rw [describeRow, describeToken_of_table (.inr rfl) htoken, hnames]
    rfl
  obtain ⟨hexists, hnamed⟩ := known_types hload htables hstrings (.inr rfl) htoken
    (a.describeWithin (namingLimit - 1)) true
  obtain ⟨p, hp⟩ := hexists.1 ⟨_, hd⟩
  obtain ⟨hsame, -, -, hfull, hblittable⟩ := hnamed _ p hd hp
  have hname : p.full = "System.Int32" := (congrArg TypeName.full hsame).symm
  have hspace : p.space = "System" := (congrArg TypeName.space hsame).symm
  have htop : ¬ p.IsNested := by
    intro hnested
    have hplus := TypePath.plus_mem_full hnested
    rw [hname] at hplus
    exact absurd hplus (by decide)
  have hprimitive := (hfull htop (by rw [hspace]; decide)).2.2 ⟨"Int32", by decide, hname⟩
  exact ⟨a, events, tables, strings, hload, htables, hstrings, _, p, hd, hp, htop, hname,
    hprimitive, hblittable.2 hprimitive⟩

/-- **A full name alone decides nothing.** The third reference has the full name of a primitive type
and no namespace, and is none, since a primitive type is one of the namespace `System`.

The second reference is nested in a type of that namespace and has another full name, and it is
taken for a primitive type, too. This half is a defect: reflection calls no nested type primitive.
`known_types` leaves it out, and says for nested types only what a flavor needs. -/
theorem known_types_by_parts :
    ∃ a events dotted nested, ofStreams (nestedStreams systemReferences) = .ok (a, events) ∧
      a.describeRow ⟨0x01000003⟩ true = .ok dotted ∧
      a.describeRow ⟨0x01000002⟩ true = .ok nested ∧
      (dotted.full = "System.Int32" ∧ dotted.flavor = .valueType) ∧
      nested.full = "System.Outer+Int32" ∧ nested.flavor = .primitive ∧ nested.isBlittable := by
  obtain ⟨a, events, tables, strings, hload, -, -, hnames⟩ := exists_systemReferences
  refine ⟨a, events, .named (.topLevel "" "System.Int32") true,
    .named ((TypeName.topLevel "System" "Outer").nestedIn "Int32") true, hload, ?_, ?_,
    ⟨rfl, rfl⟩, rfl, rfl, rfl⟩
  · rw [describeRow, describeToken_of_table (.inr rfl) (by decide), hnames]
    rfl
  · rw [describeRow, describeToken_of_table (.inr rfl) (by decide), hnames]
    rfl

end Assembly

end InteropTables
