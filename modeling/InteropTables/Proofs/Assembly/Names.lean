import InteropTables.Proofs.Assembly.Laid
import InteropTables.Proofs.Assembly.NestedNames

/-!
# Names read from the tables of an outline

* `Laid.readIdentity_eq`, `Laid.readReferences_eq`: the name of the module and the types it refers
  to;
* `enclosingTypes_eq`: what the rows of types in types say of one type, if they agree;
* `Laid.definitionName_eq`: the names of a type, with room for all types around it;
* `Laid.readTypes_eq`: **every type gets the names that the outline gives it.**
-/

namespace InteropTables

/-! ## 1. Identity and references -/

namespace Laid

variable {m : Outline} {p : Placement} {tables : TableStream}

theorem readIdentity_eq (h : Laid m p tables) :
    readIdentity tables p.strings = .ok m.identity := by
  obtain ⟨table, htable, hget⟩ := h.holds.get_row (ρ := AssemblyRow) (i := 0) rfl
  have hname : m.identity ∈ m.texts := by
    iterate 2 refine List.mem_cons_of_mem _ ?_
    exact List.mem_cons_self ..
  rw [readIdentity, htable]
  simp only [Nat.zero_add] at hget
  simp only [hget, bind_ok]
  exact h.get_text hname

theorem readReferences_eq (h : Laid m p tables) :
    readReferences tables p.strings
      = .ok (p.references.map fun (space, name) => TypeName.topLevel space name).toArray := by
  have hname : ∀ rows i r, p.references[i]? = some r →
      referenceName rows p.strings namingLimit (p.referenceRow i r)
        = .ok (TypeName.topLevel r.1 r.2) := by
    intro rows i r hr
    obtain ⟨hspace, hname⟩ := h.sound.reference r (List.mem_of_getElem? hr)
    have hscope : ¬ ((p.referenceRow i r).scope.table = .typeRef
        ∧ (p.referenceRow i r).scope.row ≠ 0) := fun hscope => hscope.2 rfl
    have hgetName : p.strings.get (p.referenceRow i r).name = .ok r.2 :=
      StringHeap.get_of_holdsText hname
    have hgetSpace : p.strings.get (p.referenceRow i r).space = .ok r.1 :=
      StringHeap.get_of_holdsText hspace
    rw [show namingLimit = 63 + 1 from rfl, referenceName, hgetName, bind_ok, hgetSpace, bind_ok,
      if_neg hscope]
    rfl
  rw [readReferences, h.holds.allRows_eq TypeRefRow, Placement.typed_typeRef, bind_ok]
  simp only [mapM_mapIdx_ok (hname _), bind_ok, mapIdx_const]
  rfl

theorem readSpecifications_eq (h : Laid m p tables) :
    readSpecifications tables p.blobHeap = .ok #[] := by
  rw [readSpecifications, h.holds.rows_table TypeSpecRow]
  rfl

end Laid

/-! ## 2. Types in types -/

/-- What is known of a type if all rows about it agree, and there is one unless nothing is known. -/
theorem enclosingTypes_eq {count n : Nat} {known : Option Nat} (hn : n ≤ count)
    (rows : List NestedClassRow)
    (hrows : ∀ row ∈ rows, row.nested = n → known = some row.enclosing)
    (hsome : known ≠ none → ∃ row ∈ rows, row.nested = n) :
    (enclosingTypes count rows)[n]? = some known := by
  rw [getElem?_enclosingTypes hn, lastEnclosing]
  refine congrArg some ?_
  cases hlast : (rows.filter fun row => row.nested = n).getLast? with
  | none =>
    have hnone : rows.filter (fun row => row.nested = n) = [] := List.getLast?_eq_none_iff.1 hlast
    by_contra hknown
    obtain ⟨row, hrow, hnested⟩ := hsome (Ne.symm hknown)
    exact List.filter_eq_nil_iff.1 hnone row hrow (decide_eq_true hnested)
  | some row =>
    obtain ⟨hrow, hnested⟩ := List.mem_filter.1 (List.mem_of_getLast? hlast)
    exact (hrows row hrow (of_decide_eq_true hnested)).symm

theorem Outline.mem_nesting {m : Outline} {nested enclosing : Nat} :
    (nested, enclosing) ∈ m.nesting ↔ ∃ i t outer, m.types[i]? = some t ∧
      t.enclosing = some outer ∧ nested = i + 2 ∧ enclosing = outer + 2 := by
  rw [Outline.nesting, List.mem_flatMap]
  constructor
  · rintro ⟨⟨t, i⟩, ht, hmem⟩
    obtain ⟨outer, houter, he⟩ := List.mem_map.1 hmem
    cases he
    exact ⟨i, t, outer, List.mem_zipIdx_iff_getElem?.1 ht, Option.mem_toList.1 houter, rfl, rfl⟩
  · rintro ⟨i, t, outer, ht, houter, rfl, rfl⟩
    exact ⟨(t, i), List.mem_zipIdx_iff_getElem?.2 ht,
      List.mem_map.2 ⟨outer, Option.mem_toList.2 houter, rfl⟩⟩

namespace Laid

variable {m : Outline} {p : Placement} {tables : TableStream}

/-- The rows of types in types tell of every type what lies around it. -/
theorem enclosing_eq {i : Nat} {t : TypeOutline} (ht : m.types[i]? = some t) :
    (enclosingTypes (m.types.length + 1) (m.nesting.mapIdx fun i r =>
        { number := i + 1, nested := r.1, enclosing := r.2 }))[i + 2]?
      = some (t.enclosing.map (· + 2)) := by
  have hlt := (List.getElem?_eq_some_iff.1 ht).1
  refine enclosingTypes_eq (by omega) _ (fun row hrow hnested => ?_) (fun hsome => ?_)
  · obtain ⟨k, hk, rfl⟩ := List.mem_mapIdx.1 hrow
    obtain ⟨j, t', outer, ht', houter, hj, he⟩ :=
      Outline.mem_nesting.1 (List.getElem_mem hk)
    obtain rfl : j = i := by
      have : j + 2 = i + 2 := hj.symm.trans hnested
      omega
    obtain rfl := Option.some.inj (ht'.symm.trans ht)
    rw [houter]
    exact congrArg some he.symm
  · rcases houter : t.enclosing with _ | outer
    · rw [houter] at hsome
      exact absurd rfl hsome
    · obtain ⟨k, hk, hget⟩ := List.getElem_of_mem
        (Outline.mem_nesting.2 ⟨i, t, outer, ht, houter, rfl, rfl⟩)
      refine ⟨_, List.mem_mapIdx.2 ⟨k, hk, rfl⟩, ?_⟩
      show (m.nesting[k]).1 = i + 2
      rw [hget]

theorem text_of_type {i : Nat} {t : TypeOutline} (ht : m.types[i]? = some t) :
    t.space ∈ m.texts ∧ t.name ∈ m.texts := by
  have hmem : ∀ s ∈ [t.space, t.name], s ∈ m.texts := by
    intro s hs
    iterate 4 refine List.mem_cons_of_mem _ ?_
    exact List.mem_append_left _ (List.mem_flatMap.2 ⟨t, List.mem_of_getElem? ht, hs⟩)
  exact ⟨hmem _ (List.mem_cons_self ..), hmem _ (List.mem_cons_of_mem _ (List.mem_cons_self ..))⟩

/-- The names of a type, with room for the types around it. The induction is on the room, which
shrinks with every type around. -/
theorem definitionName_eq (h : Laid m p tables) {rows : Array TypeDefRow}
    (hrows : rows = (p.globalRow :: m.types.mapIdx (p.typeRow m)).toArray)
    {enclosing : Array (Option Nat)}
    (henclosing : ∀ i t, m.types[i]? = some t →
      enclosing[i + 2]? = some (t.enclosing.map (· + 2))) :
    ∀ room i t, m.types[i]? = some t → m.level i < room →
      definitionName rows enclosing p.strings room (p.typeRow m i t) = .ok (m.typeName i) := by
  intro room
  induction room with
  | zero => exact fun i t _ hlevel => absurd hlevel (Nat.not_lt_zero _)
  | succ room ih =>
    intro i t ht hlevel
    obtain ⟨hspace, hname⟩ := text_of_type ht
    have hgetName : p.strings.get (p.typeRow m i t).name = .ok t.name := h.get_text hname
    have hgetSpace : p.strings.get (p.typeRow m i t).space = .ok t.space := h.get_text hspace
    have hfound : enclosing[(p.typeRow m i t).number]?.join = t.enclosing.map (· + 2) := by
      show enclosing[i + 2]?.join = _
      rw [henclosing i t ht]
      rfl
    rw [definitionName, hgetName, bind_ok, hfound]
    rcases houter : t.enclosing with _ | outer
    · rw [Outline.typeName_of_none ht houter]
      show p.strings.get (p.typeRow m i t).space >>= _ = _
      rw [hgetSpace]
      rfl
    · have hlt := (h.wellFormed i t ht).1 outer houter
      have hlength := (List.getElem?_eq_some_iff.1 ht).1
      have houterType : m.types[outer]? = some m.types[outer] :=
        List.getElem?_eq_getElem (by omega)
      have hrow : rowOf? rows (outer + 2) = some (p.typeRow m outer m.types[outer]) := by
        rw [rowOf?_succ, hrows, List.getElem?_toArray, List.getElem?_cons_succ,
          List.getElem?_mapIdx, houterType]
        rfl
      have hnamed := ih outer _ houterType (by
        rw [Outline.level_of_some ht houter hlt] at hlevel
        omega)
      rw [Outline.typeName_of_some ht houter hlt]
      simp only [Option.map_some, hrow, hnamed, bind_ok]
      rfl

/-- The types are named, and have no methods yet. -/
theorem readTypes_eq (h : Laid m p tables) :
    readTypes tables p.strings = .ok (Outline.globalType ::
      m.types.mapIdx fun i t => { m.typeInfo i t with methods := [] }).toArray := by
  have hrows := h.holds.allRows_eq TypeDefRow
  have hnested := h.holds.allRows_eq NestedClassRow
  rw [Placement.typed_typeDef] at hrows
  rw [Placement.typed_nestedClass] at hnested
  obtain ⟨table, htable, _⟩ := h.holds.get_row (ρ := TypeDefRow) (i := 0) (by
    rw [Placement.typed_typeDef]
    rfl)
  rw [TableStream.allRows, htable] at hrows
  have hlength : (p.globalRow :: m.types.mapIdx (p.typeRow m)).length = m.types.length + 1 := by
    rw [List.length_cons, List.length_mapIdx]
  have hname := h.definitionName_eq rfl (fun i t ht => enclosing_eq ht) namingLimit
  have hglobal : definitionName (p.globalRow :: m.types.mapIdx (p.typeRow m)).toArray
      (enclosingTypes (m.types.length + 1) (m.nesting.mapIdx fun i r =>
        { number := i + 1, nested := r.1, enclosing := r.2 })) p.strings namingLimit p.globalRow
      = .ok (.topLevel "" globalTypeName) := by
    have hgetName : p.strings.get p.globalRow.name = .ok globalTypeName :=
      h.get_text (List.mem_cons_self ..)
    have hgetSpace : p.strings.get p.globalRow.space = .ok "" :=
      StringHeap.get_of_holdsText (holdsText_start h.sound.texts_start)
    have houtermost : (enclosingTypes (m.types.length + 1) (m.nesting.mapIdx fun i r =>
        { number := i + 1, nested := r.1, enclosing := r.2 }))[p.globalRow.number]?
          = some none := by
      refine enclosingTypes_eq (Nat.le_add_left 1 _) _ (fun row hrow hnested => ?_)
        (fun hnone => absurd rfl hnone)
      obtain ⟨k, hk, rfl⟩ := List.mem_mapIdx.1 hrow
      obtain ⟨i, _, _, _, _, hi, _⟩ := Outline.mem_nesting.1 (List.getElem_mem hk)
      have hone : i + 2 = 1 := hi.symm.trans hnested
      omega
    rw [show namingLimit = 63 + 1 from rfl, definitionName, hgetName, bind_ok, houtermost]
    show p.strings.get p.globalRow.space >>= _ = _
    rw [hgetSpace]
    rfl
  rw [readTypes, htable, hnested]
  simp only [bind_ok, hrows, hlength]
  rw [mapM_cons_ok Outline.globalType
    (m.types.mapIdx fun i t => { m.typeInfo i t with methods := [] })]
  · rfl
  · rw [hglobal]
    rfl
  · refine mapM_mapIdx_ok fun i t ht => ?_
    rw [hname i t ht (h.wellFormed i t ht).2]
    rfl

end Laid

end InteropTables
