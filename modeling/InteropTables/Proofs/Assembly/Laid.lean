import InteropTables.Proofs.Assembly.Outline

/-!
# Tables and heaps of an outline

What can be said of the rows of an outline once a stream and two heaps hold them: each table gives
the rows of the outline in order, one row for each part of it.

* `mapM_mapIdx_ok`, `foldlM_mapIdx_ok`: steps over numbered rows that all succeed;
* `foldl_modify`: **changes to all places of an array, each by the uses of its own;**
* `Laid`: a stream and two heaps hold what an outline and a placement of it say;
* `Placement.typeRow`, `Placement.methodRow`, …, `Placement.typed_typeDef`, …: the rows.
-/

namespace InteropTables

/-! ## 1. Steps over rows -/

theorem mapIdx_map {α β γ : Type} (f : α → β) (g : Nat → β → γ) (l : List α) :
    (l.map f).mapIdx g = l.mapIdx fun i a => g i (f a) := by
  induction l generalizing g with
  | nil => rfl
  | cons a l ih => rw [List.map_cons, List.mapIdx_cons, List.mapIdx_cons, ih]

theorem mapIdx_const {α β : Type} (f : α → β) (l : List α) :
    (l.mapIdx fun _ a => f a) = l.map f := by
  induction l with
  | nil => rfl
  | cons a l ih => rw [List.mapIdx_cons, ih, List.map_cons]

theorem zipWith_mapIdx {α β γ δ : Type} (f : β → γ → δ) (g : Nat → α → β) (k : Nat → α → γ)
    (l : List α) : (l.mapIdx g).zipWith f (l.mapIdx k) = l.mapIdx fun i a => f (g i a) (k i a) := by
  induction l generalizing g k with
  | nil => rfl
  | cons a l ih =>
    rw [List.mapIdx_cons, List.mapIdx_cons, List.zipWith_cons_cons, ih, List.mapIdx_cons]

theorem mapM_mapIdx_ok {ε α β γ : Type} {f : Nat → α → β} {g : β → Except ε γ}
    {h : Nat → α → γ} {l : List α} (hl : ∀ i a, l[i]? = some a → g (f i a) = .ok (h i a)) :
    (l.mapIdx f).mapM g = .ok (l.mapIdx h) := by
  induction l generalizing f h with
  | nil => rfl
  | cons a l ih =>
    rw [List.mapIdx_cons, List.mapIdx_cons]
    exact mapM_cons_ok _ _ (hl 0 a rfl) (ih fun i b hb => hl (i + 1) b hb)

/-- Steps that succeed as long as an invariant holds, and keep it. -/
theorem foldlM_mapIdx_ok {ε α β γ : Type} {P : γ → Prop} {f : Nat → α → β}
    {step : γ → β → Except ε γ} {next : γ → α → γ} {l : List α}
    (h : ∀ i a, l[i]? = some a → ∀ c, P c → step c (f i a) = .ok (next c a) ∧ P (next c a))
    {c : γ} (hc : P c) : (l.mapIdx f).foldlM step c = .ok (l.foldl next c) := by
  induction l generalizing f c with
  | nil => rfl
  | cons a l ih =>
    obtain ⟨hstep, hinv⟩ := h 0 a rfl c hc
    rw [List.mapIdx_cons, List.foldlM_cons, hstep, bind_ok, List.foldl_cons]
    exact ih (fun i b hb => h (i + 1) b hb) hinv

theorem modify_length_append {α : Type} (f : α → α) (done behind : List α) (x : α) :
    (done ++ x :: behind).modify done.length f = done ++ f x :: behind := by
  induction done with
  | nil => rfl
  | cons a done ih =>
    rw [List.cons_append, List.length_cons, List.modify_succ_cons, ih, List.cons_append]

/-- Changes to one place, one after the other. -/
theorem foldl_modify_one {α β : Type} (f : β → α → α) (uses : List β) :
    ∀ (done behind : List α) (x : α),
      (uses.map (done.length, ·)).foldl (fun xs u => xs.modify u.1 (f u.2))
          (done ++ x :: behind).toArray
        = (done ++ uses.foldl (fun x u => f u x) x :: behind).toArray := by
  induction uses with
  | nil =>
    intro done behind x
    rfl
  | cons u uses ih =>
    intro done behind x
    have hstep : (done ++ x :: behind).toArray.modify done.length (f u)
        = (done ++ f u x :: behind).toArray := by
      rw [List.modify_toArray, modify_length_append]
    rw [List.map_cons, List.foldl_cons, List.foldl_cons]
    show List.foldl _ ((done ++ x :: behind).toArray.modify done.length (f u)) _ = _
    rw [hstep, ih]

/-- Changes to all places, those of a place one after the other. The induction is on the places; the
ones in front are done. -/
theorem foldl_modify {α β γ : Type} (f : β → α → α) (uses : γ → List β) (l : List γ) :
    ∀ (done rest : List α), rest.length = l.length →
      ((l.zipIdx done.length).flatMap fun (c, k) => (uses c).map (k, ·)).foldl
          (fun xs u => xs.modify u.1 (f u.2)) (done ++ rest).toArray
        = (done ++ l.zipWith (fun c x => (uses c).foldl (fun x u => f u x) x) rest).toArray := by
  induction l with
  | nil =>
    intro done rest hrest
    rw [List.eq_nil_of_length_eq_zero hrest]
    rfl
  | cons c l ih =>
    intro done rest hrest
    cases rest with
    | nil => cases hrest
    | cons x rest =>
      have hmore := ih (done ++ [(uses c).foldl (fun x u => f u x) x]) rest (Nat.succ.inj hrest)
      rw [List.length_append, List.append_assoc, List.append_assoc] at hmore
      rw [List.zipIdx_cons, List.flatMap_cons, List.foldl_append, foldl_modify_one]
      exact hmore

/-! ## 2. What is held -/

/-- A stream and two heaps that hold what an outline and a placement of it say. -/
structure Laid (m : Outline) (p : Placement) (tables : TableStream) : Prop where
  sound : p.Sound m
  wellFormed : m.WellFormed
  holds : tables.Holds (p.contents m)
  rows_lt : ∀ t, (p.contents m t).length < Token.rowSpan

namespace Placement

variable (p : Placement) (m : Outline)

/-- The heap of texts. -/
def strings : StringHeap := ⟨Bytes.ofList p.texts⟩

/-- The heap of blobs. -/
def blobHeap : BlobHeap := ⟨Bytes.ofList p.blobs⟩

/-- The row of a type reference. -/
def referenceRow (i : Nat) (r : String × String) : TypeRefRow where
  number := i + 1
  scope := ⟨.module, 0⟩
  name := p.textAt r.2
  space := p.textAt r.1

/-- The row of the type of the global methods. -/
def globalRow : TypeDefRow where
  number := 1
  flags := 0
  name := p.textAt globalTypeName
  space := 0
  base := ⟨.typeDef, 0⟩
  fieldList := 1
  methodList := 1

/-- The row of a type. -/
def typeRow (i : Nat) (t : TypeOutline) : TypeDefRow where
  number := i + 2
  flags := t.flags.toNat
  name := p.textAt t.name
  space := p.textAt t.space
  base := ⟨.typeDef, 0⟩
  fieldList := 1
  methodList := m.methodsBefore i + 1

/-- The row of a method. -/
def methodRow (k : Nat) (o : MethodOutline) : MethodDefRow where
  number := k + 1
  address := 0
  implFlags := o.implFlags.toNat
  flags := o.flags.toNat
  name := p.textAt o.name
  signature := p.blobAt o.signature
  paramList := 1

/-- The row of the constructor of an attribute type. -/
def memberRow (i : Nat) (row : Nat) : MemberRefRow where
  number := i + 1
  parent := ⟨.typeRef, row⟩
  name := p.textAt constructorName
  signature := p.blobAt constructorSignature

/-- The row of an attribute. -/
def attributeRow (i : Nat) (use : Nat × (String × String)) : CustomAttributeRow where
  number := i + 1
  parent := ⟨.methodDef, use.1 + 1⟩
  constructor := ⟨.memberRef, p.memberOf use.2⟩
  value := p.blobAt attributeValue

/-- The row of a native function. -/
def importRow (i : Nat) (use : Nat × ImportOutline) : ImplMapRow where
  number := i + 1
  flags := use.2.flags.toNat
  member := ⟨.methodDef, use.1 + 1⟩
  importName := p.textAt use.2.entryPoint
  importScope := p.nativeOf use.2.module

theorem typed_typeRef : (p.contents m).typed TypeRefRow = p.references.mapIdx p.referenceRow :=
  mapIdx_map _ _ _

theorem typed_typeDef :
    (p.contents m).typed TypeDefRow = p.globalRow :: m.types.mapIdx (p.typeRow m) :=
  List.mapIdx_cons.trans (congrArg (p.globalRow :: ·) List.mapIdx_mapIdx)

theorem typed_methodDef : (p.contents m).typed MethodDefRow = m.methods.mapIdx p.methodRow :=
  mapIdx_map _ _ _

theorem typed_memberRef : (p.contents m).typed MemberRefRow = p.members.mapIdx p.memberRow :=
  mapIdx_map _ _ _

theorem typed_customAttribute :
    (p.contents m).typed CustomAttributeRow = m.attributes.mapIdx p.attributeRow :=
  mapIdx_map _ _ _

theorem typed_implMap : (p.contents m).typed ImplMapRow = m.imports.mapIdx p.importRow :=
  mapIdx_map _ _ _

theorem typed_moduleRef : (p.contents m).typed ModuleRefRow
    = p.natives.mapIdx fun i name => { number := i + 1, name := p.textAt name } :=
  mapIdx_map _ _ _

theorem typed_nestedClass : (p.contents m).typed NestedClassRow
    = m.nesting.mapIdx fun i r => { number := i + 1, nested := r.1, enclosing := r.2 } :=
  mapIdx_map _ _ _

end Placement

variable {m : Outline} {p : Placement} {tables : TableStream}

theorem Laid.get_text (h : Laid m p tables) {s : String} (hs : s ∈ m.texts) :
    p.strings.get (p.textAt s) = .ok s :=
  StringHeap.get_of_holdsText (h.sound.text s hs)

end InteropTables
