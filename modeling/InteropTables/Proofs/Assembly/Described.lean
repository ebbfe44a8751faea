import InteropTables.Assembly.Describe
import InteropTables.Proofs.Steps

/-!
# Types by kind and by name

A type that was named is known by its kind and by its simple name, and different readers look at
different ones of the two. Both say the same about the types that can pass to native code: whatever
the rows of a module are called, the void type and the primitive types have the names of these, and
references and pointers end in their marks.

* `TypeDescriptor.WellNamed`: the name fits the kind;
* `wellNamed_named`, `wellNamed_describe`, `wellNamed_instantiate`: one step of naming;
* `wellNamed_of_describeWithin`: **every type that was named has a name that fits**;
* `parts_of_methodDescriptor`, `wellNamed_of_methodDescriptor`: the types of a method.
-/

namespace InteropTables

namespace TypeDescriptor

/-- The simple name of the type is one that types of its kind have. -/
def WellNamed (t : TypeDescriptor) : Prop :=
  match t.flavor with
  | .void => t.name = voidName
  | .primitive => t.name ∈ primitiveNames
  | .byRef => ∃ s, t.name = s ++ "&"
  | .pointer => ∃ s, t.name = s ++ "*"
  | _ => True

theorem wellNamed_named (name : TypeName) (isValueType : Bool) :
    (named name isValueType).WellNamed := by
  unfold named flavorOf WellNamed
  dsimp only
  split_ifs with hvoid hprimitive
  · exact hvoid.2
  · exact hprimitive.2
  · trivial
  · trivial

/-- Arguments change the full name of a type only. -/
theorem wellNamed_instantiate {t : TypeDescriptor} (h : t.WellNamed)
    (arguments : List TypeDescriptor) : (t.instantiate arguments).WellNamed :=
  h

theorem wellNamed_describe (e : Element) : e.describe.WellNamed := by
  cases e with
  | void => rfl
  | string | object | typedReference => exact wellNamed_named ..
  | _ =>
    show _ ∈ primitiveNames
    decide

end TypeDescriptor

open TypeDescriptor

namespace Assembly

variable {a : Assembly} {t : TypeDescriptor}

/-- A row is known by its names, a specification by its type. -/
theorem wellNamed_of_describeToken {inner : SigType → Except Fault TypeDescriptor}
    (hinner : ∀ type t, inner type = .ok t → t.WellNamed) {token : Token} {isValueType : Bool}
    (h : a.describeToken inner token isValueType = .ok t) : t.WellNamed := by
  unfold describeToken at h
  dsimp only at h
  split at h
  -- The table of the token is that of definitions, of references, of specifications, or another.
  · split at h
    · exact Except.ok.inj h ▸ wellNamed_named ..
    · cases h
  · split at h
    · exact Except.ok.inj h ▸ wellNamed_named ..
    · cases h
  · split at h
    · obtain ⟨type, -, h⟩ := exists_of_bind_ok h
      exact hinner type t h
    · cases h
  · cases h

/-- **Every type that was named has a name that fits its kind.** The induction is on the levels that
may be opened; a type is of its own kind, or of that of the type which it only wraps. -/
theorem wellNamed_of_describeWithin {room : Nat} :
    ∀ {type : SigType} {t : TypeDescriptor}, a.describeWithin room type = .ok t → t.WellNamed := by
  induction room with
  | zero => exact fun h => nomatch h
  | succ room ih =>
    intro type t h
    cases type with
    | element e => exact Except.ok.inj h ▸ wellNamed_describe e
    | pointer target =>
      obtain ⟨t', -, rfl⟩ := exists_of_map_ok h
      exact ⟨t'.name, rfl⟩
    | byRef target =>
      obtain ⟨t', -, rfl⟩ := exists_of_map_ok h
      exact ⟨t'.name, rfl⟩
    | pinned inner => exact ih h
    | valueType token | classType token => exact wellNamed_of_describeToken (fun _ _ => ih) h
    | typeVariable i | methodVariable i => exact Except.ok.inj h ▸ trivial
    | array inner rank | vector inner =>
      obtain ⟨t', -, rfl⟩ := exists_of_map_ok h
      trivial
    | instantiation base arguments =>
      obtain ⟨t', hbase, h⟩ := exists_of_bind_ok h
      obtain ⟨named, -, h⟩ := exists_of_bind_ok h
      exact Except.ok.inj h ▸ wellNamed_instantiate (ih hbase) named
    | functionPointer signature => exact Except.ok.inj h ▸ trivial

theorem wellNamed_of_describeParameter {p : SigParam} (h : a.describeParameter p = .ok t) :
    t.WellNamed := by
  obtain ⟨t', ht', rfl⟩ := exists_of_map_ok h
  split
  · exact ⟨t'.name, rfl⟩
  · exact wellNamed_of_describeWithin ht'

/-- What the description of a method is made of. -/
theorem parts_of_methodDescriptor {index : Nat} {d : MethodDescriptor}
    (h : a.methodDescriptor index = .ok d) :
    ∃ m declaring signature, a.methods[index]? = some m ∧ a.declaringType? m = some declaring ∧
      Signature.decodeMethod m.signature = .ok signature ∧ d.declaring = declaring.name ∧
      a.describeParameter signature.result = .ok d.result ∧
      signature.arguments.mapM a.describeParameter = .ok d.parameters := by
  unfold methodDescriptor at h
  split at h
  · cases h
  split at h
  · cases h
  obtain ⟨signature, hsignature, h⟩ := exists_of_bind_ok h
  obtain ⟨result, hresult, h⟩ := exists_of_bind_ok h
  obtain ⟨parameters, hparameters, h⟩ := exists_of_bind_ok h
  obtain rfl := Except.ok.inj h
  exact ⟨_, _, signature, ‹_›, ‹_›, hsignature, rfl, hresult, hparameters⟩

theorem wellNamed_of_methodDescriptor {index : Nat} {m : MethodDescriptor}
    (h : a.methodDescriptor index = .ok m) :
    m.result.WellNamed ∧ ∀ p ∈ m.parameters, p.WellNamed := by
  obtain ⟨_, _, signature, _, _, _, _, hresult, hparameters⟩ := parts_of_methodDescriptor h
  exact ⟨wellNamed_of_describeParameter hresult,
    forall_of_mapM_ok hparameters fun _ _ => wellNamed_of_describeParameter⟩

end Assembly

end InteropTables
