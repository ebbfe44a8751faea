import InteropTables.Proofs.Assembly.MemberTypes
import InteropTables.Proofs.Machine.Names
import Mathlib.Logic.Relation

/-!
# Types unfolded without a limit

A token of a type specification stands for the type that its blob holds, which may hold such tokens
again. Without a limit a type is named by unfolding them all, and if they run in a circle there is
no end and no name. With a limit, naming gives the same names or a failure.

* `SigType.Refers`, `Assembly.Opens`: a type that is a token, and one that opens a specification;
* `Assembly.Unfolds`: the names of a type without a limit;
* `Assembly.Visits`: the parts of a type that naming visits;
* `describeToken_cases`: the two ways in which a token is named;
* `describeWithin_mono`: **a larger limit keeps a name**;
* `unfolds_of_describeWithin`, `Unfolds.exists_room`: **naming gives what unfolding gives, and all
  of it with some limit**;
* `describeWithin_visits`: a part is named with a smaller limit, so no circle is ever named;
* `naming_unfolds`: **naming with a limit against unfolding without one.**
-/

namespace InteropTables

/-- The type is nothing but a token, of a type whose values are copied or of another one. -/
inductive SigType.Refers : SigType → Token → Bool → Prop where
  | value (token : Token) : Refers (.valueType token) token true
  | reference (token : Token) : Refers (.classType token) token false

namespace Assembly

/-! ## 1. Names without a limit -/

/-- The type opens the specification in a row, which holds another type. -/
def Opens (a : Assembly) (type : SigType) (row : Nat) (inner : SigType) : Prop :=
  ∃ token isValueType blob, type.Refers token isValueType ∧
    token.table = TableId.typeSpec.number ∧ token.row = row ∧
    rowOf? a.specifications row = some blob ∧ Signature.decodeType blob = .ok inner

/-- The names of a type, with all specifications unfolded. -/
inductive Unfolds (a : Assembly) : SigType → TypeDescriptor → Prop where
  | element (e : Element) : Unfolds a (.element e) e.describe
  | typeVariable (i : Nat) : Unfolds a (.typeVariable i) (.genericParameter i false)
  | methodVariable (i : Nat) : Unfolds a (.methodVariable i) (.genericParameter i true)
  | functionPointer (signature : SigMethod) :
      Unfolds a (.functionPointer signature) .functionPointer
  | row {type : SigType} {token : Token} {isValueType : Bool} {t : TableId} {name : TypeName}
      (hrefers : type.Refers token isValueType) (ht : t = .typeDef ∨ t = .typeRef)
      (htable : token.table = t.number) (hname : rowOf? (a.typeNames t) token.row = some name) :
      Unfolds a type (.named name isValueType)
  | specification {type inner : SigType} {row : Nat} {d : TypeDescriptor}
      (hopens : a.Opens type row inner) (hinner : Unfolds a inner d) : Unfolds a type d
  | pinned {type : SigType} {d : TypeDescriptor} (h : Unfolds a type d) : Unfolds a (.pinned type) d
  | pointer {type : SigType} {d : TypeDescriptor} (h : Unfolds a type d) :
      Unfolds a (.pointer type) (d.withSuffix "*" .pointer)
  | byRef {type : SigType} {d : TypeDescriptor} (h : Unfolds a type d) :
      Unfolds a (.byRef type) (d.withSuffix "&" .byRef)
  | vector {type : SigType} {d : TypeDescriptor} (h : Unfolds a type d) :
      Unfolds a (.vector type) (d.withSuffix "[]" .array)
  | line {type : SigType} {d : TypeDescriptor} {rank : Nat} (hrank : rank ≤ 1)
      (h : Unfolds a type d) : Unfolds a (.array type rank) (d.withSuffix "[*]" .array)
  | block {type : SigType} {d : TypeDescriptor} (more : Nat) (h : Unfolds a type d) :
      Unfolds a (.array type (more + 2))
        (d.withSuffix ("[" ++ String.ofList (List.replicate (more + 1) ',') ++ "]") .array)
  | instantiation {base : SigType} {d : TypeDescriptor} {arguments : List SigType}
      {ds : List TypeDescriptor} (hbase : Unfolds a base d) (hlength : arguments.length = ds.length)
      (harguments : ∀ {type x}, (type, x) ∈ arguments.zip ds → Unfolds a type x) :
      Unfolds a (.instantiation base arguments) { d with
        full := d.full ++ "[" ++ ",".intercalate (ds.map fun x => "[" ++ x.full ++ "]") ++ "]" }

/-- A part of a type that is named on the way, or the type in a specification. -/
inductive Visits (a : Assembly) : SigType → SigType → Prop where
  | pinned (type : SigType) : Visits a (.pinned type) type
  | pointer (type : SigType) : Visits a (.pointer type) type
  | byRef (type : SigType) : Visits a (.byRef type) type
  | vector (type : SigType) : Visits a (.vector type) type
  | array (type : SigType) (rank : Nat) : Visits a (.array type rank) type
  | base (type : SigType) (arguments : List SigType) : Visits a (.instantiation type arguments) type
  | argument (base : SigType) {arguments : List SigType} {type : SigType} (h : type ∈ arguments) :
      Visits a (.instantiation base arguments) type
  | specification {type inner : SigType} {row : Nat} (hopens : a.Opens type row inner) :
      Visits a type inner

variable {a : Assembly} {type inner : SigType} {row : Nat} {d : TypeDescriptor}

/-- A row holds one type. -/
theorem Opens.unique {type' inner' : SigType} (h : a.Opens type row inner)
    (h' : a.Opens type' row inner') : inner = inner' := by
  obtain ⟨_, _, blob, -, -, -, hblob, hinner⟩ := h
  obtain ⟨_, _, blob', -, -, -, hblob', hinner'⟩ := h'
  obtain rfl := Option.some.inj (hblob.symm.trans hblob')
  exact Except.ok.inj (hinner.symm.trans hinner')

/-! ## 2. Tokens -/

theorem describeWithin_of_refers {token : Token} {isValueType : Bool}
    (h : type.Refers token isValueType) (room : Nat) :
    a.describeWithin (room + 1) type
      = a.describeToken (a.describeWithin room) token isValueType := by
  cases h <;> rfl

/-- A type that opens a specification is named as the type in it, one level deeper. -/
theorem describeWithin_of_opens (h : a.Opens type row inner) (room : Nat) :
    a.describeWithin (room + 1) type = a.describeWithin room inner := by
  obtain ⟨token, isValueType, blob, hrefers, htable, rfl, hblob, hinner⟩ := h
  rw [describeWithin_of_refers hrefers, describeToken, htable]
  simp only [TableId.number, hblob, hinner, bind_ok]

/-- **A token is named as its row, or as the type in its specification.** -/
theorem describeToken_cases {naming : SigType → Except Fault TypeDescriptor} {token : Token}
    {isValueType : Bool} (h : a.describeToken naming token isValueType = .ok d) :
    (∃ t name, (t = TableId.typeDef ∨ t = .typeRef) ∧ token.table = t.number ∧
      rowOf? (a.typeNames t) token.row = some name ∧ d = .named name isValueType) ∨
    ∃ blob inner, token.table = TableId.typeSpec.number ∧
      rowOf? a.specifications token.row = some blob ∧ Signature.decodeType blob = .ok inner ∧
      naming inner = .ok d := by
  have hrow : ∀ t, t = TableId.typeDef ∨ t = .typeRef → token.table = t.number →
      ∃ name, rowOf? (a.typeNames t) token.row = some name ∧ d = .named name isValueType := by
    intro t ht htable
    rw [describeToken_of_table ht htable] at h
    split at h
    · rename_i name hname
      exact ⟨name, hname, (Except.ok.inj h).symm⟩
    · cases h
  by_cases hdefinition : token.table = TableId.typeDef.number
  · obtain ⟨name, hname, rfl⟩ := hrow .typeDef (.inl rfl) hdefinition
    exact .inl ⟨_, name, .inl rfl, hdefinition, hname, rfl⟩
  by_cases hreference : token.table = TableId.typeRef.number
  · obtain ⟨name, hname, rfl⟩ := hrow .typeRef (.inr rfl) hreference
    exact .inl ⟨_, name, .inr rfl, hreference, hname, rfl⟩
  rw [describeToken] at h
  dsimp only at h
  split at h
  · exact absurd ‹_› hdefinition
  · exact absurd ‹_› hreference
  · rename_i htable
    split at h
    · rename_i blob hblob
      obtain ⟨inner, hinner, h⟩ := exists_of_bind_ok h
      exact .inr ⟨blob, inner, htable, hblob, hinner, h⟩
    · cases h
  · cases h

/-- A type that is a token is named as its row, or as the type that it opens. -/
theorem describeWithin_refers_cases {token : Token} {isValueType : Bool} {room : Nat}
    (hrefers : type.Refers token isValueType) (h : a.describeWithin (room + 1) type = .ok d) :
    (∃ t name, (t = TableId.typeDef ∨ t = .typeRef) ∧ token.table = t.number ∧
      rowOf? (a.typeNames t) token.row = some name ∧ d = .named name isValueType) ∨
    ∃ row inner, a.Opens type row inner ∧ a.describeWithin room inner = .ok d := by
  rw [describeWithin_of_refers hrefers] at h
  rcases describeToken_cases h with hrow | ⟨blob, inner, htable, hblob, hinner, h⟩
  · exact .inl hrow
  · have hopens : a.Opens type token.row inner :=
      ⟨token, isValueType, blob, hrefers, htable, rfl, hblob, hinner⟩
    exact .inr ⟨token.row, inner, hopens, h⟩

/-! ## 3. Limits -/

/-- No type is named with no room at all. -/
theorem exists_room_succ {room : Nat} (h : a.describeWithin room type = .ok d) :
    ∃ less, room = less + 1 := by
  cases room with
  | zero => cases h
  | succ less => exact ⟨less, rfl⟩

/-- The induction is on the limit; all parts of a type are named with the same smaller one. -/
theorem describeWithin_succ {room : Nat} : ∀ {type : SigType} {d : TypeDescriptor},
    a.describeWithin room type = .ok d → a.describeWithin (room + 1) type = .ok d := by
  induction room with
  | zero => exact fun h => nomatch h
  | succ room ih =>
    have htoken : ∀ {type : SigType} {token : Token} {isValueType : Bool} {d : TypeDescriptor},
        type.Refers token isValueType → a.describeWithin (room + 1) type = .ok d →
        a.describeWithin (room + 1 + 1) type = .ok d := by
      intro type token isValueType d hrefers h
      rcases describeWithin_refers_cases hrefers h with
        ⟨t, name, ht, htable, hname, rfl⟩ | ⟨row, inner, hopens, hinner⟩
      · rw [describeWithin_of_refers hrefers, describeToken_of_table ht htable, hname]
      · rw [describeWithin_of_opens hopens, ih hinner]
    intro type d h
    cases type with
    | element | typeVariable | methodVariable | functionPointer => exact h
    | valueType token => exact htoken (.value token) h
    | classType token => exact htoken (.reference token) h
    | pinned t => exact ih h
    | pointer t | byRef t | vector t | array t rank =>
      obtain ⟨x, hx, rfl⟩ := exists_of_map_ok h
      exact congrArg (Except.map _) (ih hx)
    | instantiation base arguments =>
      obtain ⟨x, hbase, h⟩ := exists_of_bind_ok h
      obtain ⟨xs, harguments, h⟩ := exists_of_bind_ok h
      have hmore : arguments.mapM (a.describeWithin (room + 1)) = .ok xs :=
        mapM_eq_ok_iff.2 ((mapM_eq_ok_iff.1 harguments).imp fun _ _ => ih)
      exact bind_eq_ok (ih hbase) (bind_eq_ok hmore h)

/-- **A larger limit keeps a name.** -/
theorem describeWithin_mono {room room' : Nat} (h : a.describeWithin room type = .ok d)
    (hle : room ≤ room') : a.describeWithin room' type = .ok d := by
  induction hle with
  | refl => exact h
  | step _ ih => exact describeWithin_succ ih

/-! ## 4. Naming and unfolding -/

/-- **What is named with a limit is unfolded to the same names.** -/
theorem unfolds_of_describeWithin {room : Nat} : ∀ {type : SigType} {d : TypeDescriptor},
    a.describeWithin room type = .ok d → a.Unfolds type d := by
  induction room with
  | zero => exact fun h => nomatch h
  | succ room ih =>
    have htoken : ∀ {type : SigType} {token : Token} {isValueType : Bool} {d : TypeDescriptor},
        type.Refers token isValueType → a.describeWithin (room + 1) type = .ok d →
        a.Unfolds type d := by
      intro type token isValueType d hrefers h
      rcases describeWithin_refers_cases hrefers h with
        ⟨t, name, ht, htable, hname, rfl⟩ | ⟨row, inner, hopens, hinner⟩
      · exact .row hrefers ht htable hname
      · exact .specification hopens (ih hinner)
    intro type d h
    cases type with
    | element e => exact Except.ok.inj h ▸ .element e
    | typeVariable i => exact Except.ok.inj h ▸ .typeVariable i
    | methodVariable i => exact Except.ok.inj h ▸ .methodVariable i
    | functionPointer signature => exact Except.ok.inj h ▸ .functionPointer signature
    | valueType token => exact htoken (.value token) h
    | classType token => exact htoken (.reference token) h
    | pinned t => exact .pinned (ih h)
    | pointer t =>
      obtain ⟨x, hx, rfl⟩ := exists_of_map_ok h
      exact .pointer (ih hx)
    | byRef t =>
      obtain ⟨x, hx, rfl⟩ := exists_of_map_ok h
      exact .byRef (ih hx)
    | vector t =>
      obtain ⟨x, hx, rfl⟩ := exists_of_map_ok h
      exact .vector (ih hx)
    | array t rank =>
      obtain ⟨x, hx, rfl⟩ := exists_of_map_ok h
      -- No rank and rank one are written alike; from rank two on each rank has commas of its own.
      match rank with
      | 0 => exact .line (by decide) (ih hx)
      | 1 => exact .line (by decide) (ih hx)
      | more + 2 => exact .block more (ih hx)
    | instantiation base arguments =>
      obtain ⟨x, hbase, h⟩ := exists_of_bind_ok h
      obtain ⟨xs, harguments, h⟩ := exists_of_bind_ok h
      have hall := mapM_eq_ok_iff.1 harguments
      refine Except.ok.inj h ▸ .instantiation (ih hbase) hall.length_eq fun hmem => ?_
      exact ih ((List.forall₂_iff_zip.1 hall).2 hmem)

/-- One limit is enough for all arguments. -/
theorem exists_room_mapM {arguments : List SigType} {ds : List TypeDescriptor}
    (hlength : arguments.length = ds.length)
    (h : ∀ {type x}, (type, x) ∈ arguments.zip ds → ∃ room, a.describeWithin room type = .ok x) :
    ∃ room, arguments.mapM (a.describeWithin room) = .ok ds := by
  induction arguments generalizing ds with
  | nil =>
    obtain rfl := List.eq_nil_of_length_eq_zero hlength.symm
    exact ⟨0, rfl⟩
  | cons type arguments ih =>
    cases ds with
    | nil => cases hlength
    | cons x xs =>
      obtain ⟨room, hx⟩ := h (List.mem_cons_self ..)
      obtain ⟨room', hxs⟩ := ih (Nat.succ.inj hlength) fun hmem => h (List.mem_cons_of_mem _ hmem)
      refine ⟨max room room', mapM_cons_ok _ _ (describeWithin_mono hx (Nat.le_max_left ..)) ?_⟩
      exact mapM_eq_ok_iff.2 ((mapM_eq_ok_iff.1 hxs).imp fun _ _ hstep =>
        describeWithin_mono hstep (Nat.le_max_right ..))

/-- **What is unfolded is named with some limit.** The induction is on the unfolding. -/
theorem Unfolds.exists_room (h : a.Unfolds type d) :
    ∃ room, a.describeWithin room type = .ok d := by
  induction h with
  | element | typeVariable | methodVariable | functionPointer => exact ⟨1, rfl⟩
  | row hrefers ht htable hname =>
    refine ⟨1, ?_⟩
    rw [describeWithin_of_refers hrefers, describeToken_of_table ht htable, hname]
  | specification hopens _ ih =>
    obtain ⟨room, hroom⟩ := ih
    exact ⟨room + 1, (describeWithin_of_opens hopens room).trans hroom⟩
  | pinned _ ih =>
    obtain ⟨room, hroom⟩ := ih
    exact ⟨room + 1, hroom⟩
  | pointer _ ih | byRef _ ih | vector _ ih | block _ _ ih =>
    obtain ⟨room, hroom⟩ := ih
    exact ⟨room + 1, congrArg (Except.map _) hroom⟩
  | @line t d rank hrank _ ih =>
    obtain ⟨room, hroom⟩ := ih
    have hone : max rank 1 = 1 := by omega
    refine ⟨room + 1, ?_⟩
    show (a.describeWithin room t).map (·.array (max rank 1)) = _
    rw [hroom, hone]
    rfl
  | instantiation _ hlength _ hbase harguments =>
    obtain ⟨room, hroom⟩ := hbase
    obtain ⟨room', hroom'⟩ := exists_room_mapM hlength harguments
    refine ⟨max room room' + 1, bind_eq_ok (describeWithin_mono hroom (Nat.le_max_left ..))
      (bind_eq_ok ?_ rfl)⟩
    exact mapM_eq_ok_iff.2 ((mapM_eq_ok_iff.1 hroom').imp fun _ _ hstep =>
      describeWithin_mono hstep (Nat.le_max_right ..))

/-- A type has at most one unfolding. -/
theorem Unfolds.unique {d' : TypeDescriptor} (h : a.Unfolds type d) (h' : a.Unfolds type d') :
    d = d' := by
  obtain ⟨room, hroom⟩ := h.exists_room
  obtain ⟨room', hroom'⟩ := h'.exists_room
  have hmore := describeWithin_mono hroom (Nat.le_max_left room room')
  have hmore' := describeWithin_mono hroom' (Nat.le_max_right room room')
  exact Except.ok.inj (hmore.symm.trans hmore')

/-! ## 5. Circles -/

/-- **A part of a type is named with a smaller limit.** -/
theorem describeWithin_visits {room : Nat} (h : a.describeWithin (room + 1) type = .ok d)
    (hvisits : a.Visits type inner) : ∃ x, a.describeWithin room inner = .ok x := by
  cases hvisits with
  | pinned => exact ⟨d, h⟩
  | pointer | byRef | vector | array =>
    obtain ⟨x, hx, -⟩ := exists_of_map_ok h
    exact ⟨x, hx⟩
  | base =>
    obtain ⟨x, hx, -⟩ := exists_of_bind_ok h
    exact ⟨x, hx⟩
  | argument base hmem =>
    obtain ⟨_, -, h⟩ := exists_of_bind_ok h
    obtain ⟨xs, harguments, -⟩ := exists_of_bind_ok h
    obtain ⟨x, -, hx⟩ := exists_mem_of_forall₂ (mapM_eq_ok_iff.1 harguments) inner hmem
    exact ⟨x, hx⟩
  | specification hopens => exact ⟨d, (describeWithin_of_opens hopens room).symm.trans h⟩

/-- So is what is visited after several steps. -/
theorem exists_room_lt (hvisits : Relation.TransGen a.Visits type inner) {room : Nat}
    (h : a.describeWithin room type = .ok d) :
    ∃ room' x, room' < room ∧ a.describeWithin room' inner = .ok x := by
  have hstep : ∀ {t u : SigType} {room : Nat} {d : TypeDescriptor}, a.Visits t u →
      a.describeWithin room t = .ok d →
      ∃ room' x, room' < room ∧ a.describeWithin room' u = .ok x := by
    intro t u room d hvisits h
    obtain ⟨room, rfl⟩ := exists_room_succ h
    obtain ⟨x, hx⟩ := describeWithin_visits h hvisits
    exact ⟨room, x, Nat.lt_succ_self room, hx⟩
  induction hvisits with
  | single hvisits => exact hstep hvisits h
  | tail _ hvisits ih =>
    obtain ⟨room', x, hlt, hx⟩ := ih
    obtain ⟨room'', y, hlt', hy⟩ := hstep hvisits hx
    exact ⟨room'', y, Nat.lt_trans hlt' hlt, hy⟩

/-- A type that visits itself is never named: round the circle the limit would shrink for ever. -/
theorem not_circular_of_describeWithin {room : Nat} : ∀ {d : TypeDescriptor},
    a.describeWithin room type = .ok d → ¬ Relation.TransGen a.Visits type type := by
  induction room using Nat.strongRecOn with
  | ind room ih =>
    intro d h hcircle
    obtain ⟨room', x, hlt, hx⟩ := exists_room_lt hcircle h
    exact ih room' hlt hx hcircle

/-- **A specification that is opened again inside itself gives no name**, with any limit. -/
theorem exists_error_of_reentry {outer again inner' : SigType}
    (hreaches : Relation.ReflTransGen a.Visits type outer) (hopens : a.Opens outer row inner)
    (hinside : Relation.ReflTransGen a.Visits inner again) (hagain : a.Opens again row inner')
    (room : Nat) : ∃ e, a.describeWithin room type = .error e := by
  obtain rfl := hopens.unique hagain
  have hcircle : Relation.TransGen a.Visits inner inner := .tail' hinside (.specification hagain)
  have hvisits : Relation.TransGen a.Visits type inner := .tail' hreaches (.specification hopens)
  cases h : a.describeWithin room type with
  | error e => exact ⟨e, rfl⟩
  | ok d =>
    obtain ⟨room', x, -, hx⟩ := exists_room_lt hvisits h
    exact absurd hcircle (not_circular_of_describeWithin hx)

/-! ## 6. Both -/

/-- **Naming with a limit against unfolding without one.** Naming ends: a machine that counts the
levels up, and stops if there is one too many, is never stopped. The names that it gives are those
of the unfolding, which has no others; they stay under every larger limit; and what has an unfolding
is named under some limit. A type that opens a specification, and the same again somewhere inside
it, is not named under any. -/
theorem naming_unfolds (a : Assembly) (type : SigType) :
    (Machine.ShortBlobs a →
      Machine.describeWithin a Machine.namingFuel 0 type = .of (a.describe type)) ∧
    (∀ d, a.describe type = .ok d → ∀ d', a.Unfolds type d' ↔ d' = d) ∧
    (∀ room room' d, a.describeWithin room type = .ok d → room ≤ room' →
      a.describeWithin room' type = .ok d) ∧
    (∀ d, a.Unfolds type d → ∃ room, a.describeWithin room type = .ok d) ∧
    ∀ outer row inner again inner', Relation.ReflTransGen a.Visits type outer →
      a.Opens outer row inner → Relation.ReflTransGen a.Visits inner again →
      a.Opens again row inner' → ∀ room, ∃ e, a.describeWithin room type = .error e := by
  refine ⟨fun hshort => ?_, fun d hd d' => ?_, fun room room' d => describeWithin_mono,
    fun d => Unfolds.exists_room, fun outer row inner again inner' => exists_error_of_reentry⟩
  · exact (Machine.describeWithin_follows hshort (Nat.lt_succ_self namingLimit)
      (Nat.zero_add namingLimit) type).eq
  · have hunfolds : a.Unfolds type d := unfolds_of_describeWithin hd
    exact ⟨fun h => h.unique hunfolds, fun h => h ▸ hunfolds⟩

/-- A module with two specifications: a pointer to the first of them, and one to `Int32`. -/
def twoPointers : Assembly where
  identity := "App"
  types := #[]
  methods := #[]
  references := #[.topLevel "System" "Int32"]
  specifications := #[Bytes.ofList [0x0F, 0x11, 0x06], Bytes.ofList [0x0F, 0x11, 0x05]]

/-- The first specification is opened again inside itself, the second one is named. -/
theorem naming_unfolds_twoPointers :
    Machine.ShortBlobs twoPointers ∧
    Machine.describeWithin twoPointers Machine.namingFuel 0 (.valueType ⟨0x1B000001⟩)
      = .of (twoPointers.describe (.valueType ⟨0x1B000001⟩)) ∧
    (∀ room, ∃ e, twoPointers.describeWithin room (.valueType ⟨0x1B000001⟩) = .error e) ∧
    ∃ d, d.full = "System.Int32*" ∧ twoPointers.Unfolds (.valueType ⟨0x1B000002⟩) d := by
  have hshort : Machine.ShortBlobs twoPointers :=
    ⟨by decide, fun _ hm => absurd hm (Array.not_mem_empty _)⟩
  have hopens : twoPointers.Opens (.valueType ⟨0x1B000001⟩) 1
      (.pointer (.valueType ⟨0x1B000001⟩)) := ⟨_, _, _, .value _, rfl, rfl, rfl, rfl⟩
  have hnamed : twoPointers.describe (.valueType ⟨0x1B000002⟩)
      = .ok (TypeDescriptor.pointer (.primitive "Int32")) := rfl
  obtain ⟨hends, -, -, -, hreentry⟩ := naming_unfolds twoPointers (.valueType ⟨0x1B000001⟩)
  obtain ⟨-, hunfolds, -⟩ := naming_unfolds twoPointers (.valueType ⟨0x1B000002⟩)
  have hinside : Relation.ReflTransGen twoPointers.Visits (.pointer (.valueType ⟨0x1B000001⟩))
      (.valueType ⟨0x1B000001⟩) := .single (.pointer _)
  exact ⟨hshort, hends hshort, hreentry _ _ _ _ _ .refl hopens hinside hopens, _, rfl,
    (hunfolds _ hnamed _).2 rfl⟩

end Assembly

end InteropTables
