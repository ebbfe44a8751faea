import InteropTables.Interop.Findings
import InteropTables.Proofs.Assembly.LoadedNames
import InteropTables.Proofs.Assembly.Unfolding

/-!
# The first marker and the full names of types

An attribute keeps the namespace and the simple name of the type that declares its constructor, and
is compared with the first marker by these two. So it is the marker exactly if the two are joined to
the full name of the marker. For a type that lies in no other this is its own full name.

* `Assembly.NamedAfter`: the row that a type is named after;
* `names_of_namedAfter`: a type has the namespace and the simple name of this row;
* `Assembly.MadeIn`: the row that declares a constructor;
* `marker_by_parts`: **which constructors make the first marker**;
* `nested_marker`: a type inside another one, taken for the marker.
-/

namespace InteropTables

/-! ## 1. The row behind a type -/

namespace Assembly

/-- The row that a type is named after, of a definition or of a reference: that of its token, or
that of the type which is specified, pinned or instantiated. -/
inductive NamedAfter (a : Assembly) : SigType → TableId → Nat → Prop where
  | row {type : SigType} {token : Token} {isValueType : Bool} {t : TableId}
      (hrefers : type.Refers token isValueType) (ht : t = .typeDef ∨ t = .typeRef)
      (htable : token.table = t.number) : NamedAfter a type t token.row
  | specification {type inner : SigType} {row : Nat} {t : TableId} {r : Nat}
      (hopens : a.Opens type row inner) (h : NamedAfter a inner t r) : NamedAfter a type t r
  | pinned {type : SigType} {t : TableId} {r : Nat} (h : NamedAfter a type t r) :
      NamedAfter a (.pinned type) t r
  | instantiation {base : SigType} {arguments : List SigType} {t : TableId} {r : Nat}
      (h : NamedAfter a base t r) : NamedAfter a (.instantiation base arguments) t r

variable {a : Assembly}

/-- A type has the namespace and the simple name of the row that it is named after. The induction is
on the way to the row; on each step of it one level is opened. -/
theorem names_of_namedAfter {type : SigType} {t : TableId} {r : Nat} (h : a.NamedAfter type t r) :
    ∀ {room : Nat} {d : TypeDescriptor}, a.describeWithin room type = .ok d →
      ∃ name, rowOf? (a.typeNames t) r = some name ∧ d.space = name.space ∧
        d.name = name.name := by
  induction h with
  | row hrefers ht htable =>
    intro room d hd
    obtain ⟨room, rfl⟩ := exists_room_succ hd
    rw [describeWithin_of_refers hrefers, describeToken_of_table ht htable] at hd
    split at hd
    · rename_i name hname
      obtain rfl := Except.ok.inj hd
      exact ⟨name, hname, rfl, rfl⟩
    · cases hd
  | specification hopens _ ih =>
    intro room d hd
    obtain ⟨room, rfl⟩ := exists_room_succ hd
    exact ih ((describeWithin_of_opens hopens room).symm.trans hd)
  | pinned _ ih =>
    intro room d hd
    obtain ⟨room, rfl⟩ := exists_room_succ hd
    exact ih hd
  | instantiation _ ih =>
    intro room d hd
    obtain ⟨room, rfl⟩ := exists_room_succ hd
    obtain ⟨base, hbase, hd⟩ := exists_of_bind_ok hd
    obtain ⟨arguments, -, hd⟩ := exists_of_bind_ok hd
    obtain ⟨name, hname, hspace, hsimple⟩ := ih hbase
    rw [← Except.ok.inj hd]
    exact ⟨name, hname, hspace, hsimple⟩

/-! ## 2. The row behind a constructor -/

/-- The row that declares a constructor. A constructor of the module is one of a type that lists it;
any other is a member of a type that has a name. -/
inductive MadeIn (a : Assembly) (members : Option (Table MemberRefRow)) :
    CodedIndex → TableId → Nat → Prop where
  | own {made : CodedIndex} {m : Method} {i : Nat} (hmade : made.table = .methodDef)
      (hmethod : rowOf? a.methods made.row = some m) (hdeclaring : m.declaring = some i)
      (hlt : i < a.types.size) : MadeIn a members made .typeDef (i + 1)
  | member {made : CodedIndex} {table : Table MemberRefRow} {member : MemberRefRow}
      {d : TypeDescriptor} {t : TableId} {r : Nat} (hmade : made.table = .memberRef)
      (htable : members = some table) (hmember : table.get made.row = .ok member)
      (hparent : member.parent.table ∈ [TableId.typeDef, .typeRef, .typeSpec])
      (hnamed : a.describeRow member.parent.token false = .ok d)
      (h : a.NamedAfter (.classType member.parent.token) t r) : MadeIn a members made t r

/-- A member of a type that has a name makes an attribute of this name. -/
theorem resolve_member {members : Table MemberRefRow} {made : CodedIndex} {member : MemberRefRow}
    {d : TypeDescriptor} (hmade : made.table = .memberRef)
    (hmember : members.get made.row = .ok member)
    (hparent : member.parent.table ∈ [TableId.typeDef, .typeRef, .typeSpec])
    (hnamed : a.describeRow member.parent.token false = .ok d) (strings : StringHeap) :
    a.resolve (some members) strings made = .resolved d.space d.name := by
  have hfound : ((some members).bind fun table => (table.get made.row).toOption) = some member := by
    rw [Option.bind_some, hmember]
    rfl
  unfold resolve
  rw [hmade]
  -- What the naming gives is known, so it need not be run.
  generalize a.describeRow = naming at hnamed
  dsimp only
  rw [hfound]
  dsimp only
  rw [if_pos hparent, hnamed]

/-- The attribute of a constructor has the namespace and the simple name of the row that declares
it. -/
theorem resolve_of_madeIn {members : Option (Table MemberRefRow)} {made : CodedIndex} {t : TableId}
    {r : Nat} (h : a.MadeIn members made t r) (strings : StringHeap) :
    ∃ name, rowOf? (a.typeNames t) r = some name ∧
      a.resolve members strings made = .resolved name.space name.name := by
  cases h with
  | @own m i hmade hmethod hdeclaring hlt =>
    refine ⟨a.types[i].name, ?_, ?_⟩
    · rw [typeNames, rowOf?_map, rowOf?_succ, Array.getElem?_eq_getElem hlt]
      rfl
    · have hdeclares : a.declaringType? m = some a.types[i] := by
        rw [declaringType?, hdeclaring]
        exact Array.getElem?_eq_getElem hlt
      simp only [resolve, hmade, hmethod, Option.bind_some, hdeclares]
  | @member table member d _ _ hmade htable hmember hparent hnamed hafter =>
    have hdescribed : a.describeWithin (namingLimit - 1 + 1) (.classType member.parent.token)
        = .ok d := (describeWithin_of_refers (.reference _) _).trans hnamed
    obtain ⟨name, hname, hspace, hsimple⟩ := names_of_namedAfter hafter hdescribed
    refine ⟨name, hname, ?_⟩
    rw [htable, resolve_member hmade hmember hparent hnamed, hspace, hsimple]

/-- A member of a type in a row that exists is declared there, if the token of the row keeps it. -/
theorem madeIn_of_row {members : Table MemberRefRow} {made : CodedIndex} {member : MemberRefRow}
    {t : TableId} {r : Nat} {name : TypeName} (hmade : made.table = .memberRef)
    (hmember : members.get made.row = .ok member) (ht : t = .typeDef ∨ t = .typeRef)
    (hparent : member.parent = ⟨t, r⟩) (hfits : r < Token.rowSpan)
    (hname : rowOf? (a.typeNames t) r = some name) : a.MadeIn (some members) made t r := by
  have hrow : (CodedIndex.token ⟨t, r⟩).row = r := (CodedIndex.row_token_eq_iff ⟨t, r⟩).2 hfits
  have hnamed : a.describeRow (CodedIndex.token ⟨t, r⟩) false = .ok (.named name false) := by
    rw [describeRow_token ht, Nat.mod_eq_of_lt hfits, hname]
  have hafter : a.NamedAfter (.classType (CodedIndex.token ⟨t, r⟩)) t r := by
    have hafter := NamedAfter.row (a := a) (.reference (CodedIndex.token ⟨t, r⟩)) ht
      (CodedIndex.table_token _)
    rwa [hrow] at hafter
  refine .member hmade rfl hmember ?_ (hparent ▸ hnamed) (hparent ▸ hafter)
  rw [hparent]
  show t ∈ [TableId.typeDef, .typeRef, .typeSpec]
  obtain rfl | rfl := ht <;> decide

/-! ## 3. The first marker -/

variable {streams : MetadataStreams} {events : List Event} {tables : TableStream}
  {strings : StringHeap}

open CallbackMarker

theorem ofAttribute?_resolved_eq_iff {space name : String} :
    ofAttribute? (.resolved space name) = some .unmanagedCallersOnly ↔
      joinName space name = unmanagedCallersOnlyName := by
  unfold ofAttribute?
  dsimp only
  split_ifs with hjoin hname
  · exact iff_of_true rfl hjoin
  · exact iff_of_false (fun h => nomatch h) hjoin
  · exact iff_of_false (fun h => nomatch h) hjoin

/-- **Which constructors make the first marker.** Every method of a loaded module has the attributes
that the rows give to it. The type that declares the constructor of one lies on a path, and the
attribute is the first marker exactly if the namespace and the simple name of this path are joined
to the full name of the marker. For a type that lies in no other, this is its full name; a type that
lies in another one has never this full name. -/
theorem marker_by_parts (hload : ofStreams streams = .ok (a, events))
    (htables : streams.tables = some tables) (hstrings : streams.strings = some strings) :
    a.OwnsAttributes streams ∧
    ∀ made t r, a.MadeIn (tables.table MemberRefRow) made t r →
      ∃ p, tables.TypeAt strings t r p ∧
        let marker? := ofAttribute? (a.resolve (tables.table MemberRefRow) strings made)
        (marker? = some .unmanagedCallersOnly ↔ joinName p.space p.name
          = "System.Runtime.InteropServices.UnmanagedCallersOnlyAttribute") ∧
        (¬ p.IsNested → (marker? = some .unmanagedCallersOnly ↔
          p.full = "System.Runtime.InteropServices.UnmanagedCallersOnlyAttribute")) ∧
        (p.IsNested →
          p.full ≠ "System.Runtime.InteropServices.UnmanagedCallersOnlyAttribute") := by
  refine ⟨ownsAttributes_of_ofStreams hload htables hstrings, fun made t r hmade => ?_⟩
  obtain ⟨name, hname, hresolve⟩ := resolve_of_madeIn hmade strings
  obtain ⟨p, hp, rfl⟩ := (rowOf?_typeNames_iff hload htables hstrings).1 hname
  have hmarker : ofAttribute? (a.resolve (tables.table MemberRefRow) strings made)
      = some .unmanagedCallersOnly ↔ joinName p.space p.name = unmanagedCallersOnlyName := by
    rw [hresolve]
    exact ofAttribute?_resolved_eq_iff
  refine ⟨p, hp, hmarker, fun htop => ?_, fun hnested hfull => ?_⟩
  · rw [TypePath.full_of_not_isNested htop, ← TypePath.name_of_not_isNested htop]
    exact hmarker
  · have hplus := TypePath.plus_mem_full hnested
    rw [hfull] at hplus
    exact absurd hplus (by decide)

/-- Scope, name and namespace of three references: the second one lies in the first one, and is
called like the third one, which is the marker. -/
def markerReferences : List (List Nat) :=
  [[0, 10, 48], [1 * 4 + 3, 79, 0], [0, 79, 48]]

/-- The names of these references. -/
def markerNames : Array TypeName :=
  #[.topLevel "System.Runtime.InteropServices" "Outer",
    (TypeName.topLevel "System.Runtime.InteropServices" "Outer").nestedIn
      "UnmanagedCallersOnlyAttribute",
    .topLevel "System.Runtime.InteropServices" "UnmanagedCallersOnlyAttribute"]

theorem exists_markerReferences :
    ∃ a events tables strings members,
      ofStreams (nestedStreams markerReferences) = .ok (a, events) ∧
      (nestedStreams markerReferences).tables = some tables ∧
      (nestedStreams markerReferences).strings = some strings ∧
      tables.table MemberRefRow = some members ∧ a.typeNames .typeRef = markerNames ∧
      (∃ member, members.get 1 = .ok member ∧ member.parent = ⟨.typeRef, 2⟩) ∧
      ∃ member, members.get 2 = .ok member ∧ member.parent = ⟨.typeRef, 3⟩ := by
  obtain ⟨a, events, tables, strings, hload, htables, hstrings, h⟩ := exists_loaded
    (nestedStreams markerReferences) (p := fun a tables _ => a.typeNames .typeRef == markerNames &&
      (tables.table MemberRefRow).any fun members =>
        ((members.get 1).toOption.any fun member => member.parent == ⟨.typeRef, 2⟩) &&
        (members.get 2).toOption.any fun member => member.parent == ⟨.typeRef, 3⟩)
      (by decide +kernel)
  obtain ⟨hnames, h⟩ := Bool.and_eq_true_iff.1 h
  obtain ⟨members, hmembers, h⟩ := (Option.any_eq_true _ _).1 h
  obtain ⟨hfirst, hsecond⟩ := Bool.and_eq_true_iff.1 h
  obtain ⟨first, hget, hparent⟩ := exists_of_any hfirst
  obtain ⟨second, hget', hparent'⟩ := exists_of_any hsecond
  exact ⟨a, events, tables, strings, members, hload, htables, hstrings, hmembers, eq_of_beq hnames,
    ⟨first, hget, eq_of_beq hparent⟩, second, hget', eq_of_beq hparent'⟩

/-- The second constructor is a member of the marker. -/
theorem marker_by_parts_reference :
    ∃ a events tables strings, ofStreams (nestedStreams markerReferences) = .ok (a, events) ∧
      (nestedStreams markerReferences).tables = some tables ∧
      (nestedStreams markerReferences).strings = some strings ∧
      a.MadeIn (tables.table MemberRefRow) ⟨.memberRef, 2⟩ .typeRef 3 ∧
      (∃ p, tables.TypeAt strings .typeRef 3 p ∧
        p.full = "System.Runtime.InteropServices.UnmanagedCallersOnlyAttribute") ∧
      ofAttribute? (a.resolve (tables.table MemberRefRow) strings ⟨.memberRef, 2⟩)
        = some .unmanagedCallersOnly := by
  obtain ⟨a, events, tables, strings, members, hload, htables, hstrings, hmembers, hnames, -,
    member, hmember, hparent⟩ := exists_markerReferences
  have hname : rowOf? (a.typeNames .typeRef) 3
      = some (.topLevel "System.Runtime.InteropServices" "UnmanagedCallersOnlyAttribute") := by
    rw [hnames]
    rfl
  have hmade : a.MadeIn (tables.table MemberRefRow) ⟨.memberRef, 2⟩ .typeRef 3 :=
    hmembers ▸ madeIn_of_row rfl hmember (.inr rfl) hparent (by decide) hname
  obtain ⟨p, hp, hparts, -⟩ := (marker_by_parts hload htables hstrings).2 _ _ _ hmade
  have hsame := Option.some.inj
    (((rowOf?_typeNames_iff hload htables hstrings).2 ⟨p, hp, rfl⟩).symm.trans hname)
  refine ⟨a, events, tables, strings, hload, htables, hstrings, hmade,
    ⟨p, hp, congrArg TypeName.full hsame⟩, hparts.2 ?_⟩
  rw [show p.space = _ from congrArg TypeName.space hsame,
    show p.name = _ from congrArg TypeName.name hsame]
  rfl

/-- **A type inside another one is taken for the marker.** The first constructor is a member of the
second reference, whose full name is another one. -/
theorem nested_marker :
    ∃ a events tables strings, ofStreams (nestedStreams markerReferences) = .ok (a, events) ∧
      (nestedStreams markerReferences).tables = some tables ∧
      (nestedStreams markerReferences).strings = some strings ∧
      a.MadeIn (tables.table MemberRefRow) ⟨.memberRef, 1⟩ .typeRef 2 ∧
      (∃ p, tables.TypeAt strings .typeRef 2 p ∧ p.IsNested ∧
        p.full = "System.Runtime.InteropServices.Outer+UnmanagedCallersOnlyAttribute") ∧
      ofAttribute? (a.resolve (tables.table MemberRefRow) strings ⟨.memberRef, 1⟩)
        = some .unmanagedCallersOnly := by
  obtain ⟨a, events, tables, strings, members, hload, htables, hstrings, hmembers, hnames,
    ⟨member, hmember, hparent⟩, -⟩ := exists_markerReferences
  have hname : rowOf? (a.typeNames .typeRef) 2
      = some ((TypeName.topLevel "System.Runtime.InteropServices" "Outer").nestedIn
          "UnmanagedCallersOnlyAttribute") := by
    rw [hnames]
    rfl
  have hmade : a.MadeIn (tables.table MemberRefRow) ⟨.memberRef, 1⟩ .typeRef 2 :=
    hmembers ▸ madeIn_of_row rfl hmember (.inr rfl) hparent (by decide) hname
  obtain ⟨p, hp, hsame⟩ := (rowOf?_typeNames_iff hload htables hstrings).1 hname
  have hfull : p.full = "System.Runtime.InteropServices.Outer+UnmanagedCallersOnlyAttribute" :=
    (congrArg TypeName.full hsame).symm
  have hnested : p.IsNested := by
    by_contra htop
    have hjoin := TypePath.full_of_not_isNested htop
    rw [← TypePath.name_of_not_isNested htop, hfull,
      show p.space = _ from (congrArg TypeName.space hsame).symm,
      show p.name = _ from (congrArg TypeName.name hsame).symm] at hjoin
    exact absurd hjoin (by decide)
  obtain ⟨name, hname', hresolve⟩ := resolve_of_madeIn hmade strings
  obtain rfl := Option.some.inj (hname.symm.trans hname')
  refine ⟨a, events, tables, strings, hload, htables, hstrings, hmade, ⟨p, hp, hnested, hfull⟩, ?_⟩
  rw [hresolve]
  exact ofAttribute?_resolved_eq_iff.2 rfl

end Assembly

end InteropTables
