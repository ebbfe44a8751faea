import InteropTables.Proofs.Assembly.Described
import InteropTables.Proofs.Interop.Scanning
import InteropTables.Proofs.Lists

/-!
# Methods with one owner

Every method names a type that lists it. That it is listed by no other depends on the rows: if no
type begins in front of an earlier one, and no two places of the list name one method, the lists are
a partition of the methods that they hold, and a scan visits each of them once.

* `Assembly.Owned`: the types that methods name list them;
* `Assembly.Partitioned`: every listed method is listed once;
* `Assembly.VisitedOnce`: every method of a visible type is visited once, under its type;
* `OrderedMethods`: what the rows must keep to;
* `listed_of_first_le`: **no method is left out behind the first one listed**;
* `methods_partitioned`: **the lists of a loaded module.**
-/

namespace InteropTables

/-! ## 1. Lists and owners -/

namespace Assembly

/-- The type that a method names lists it, and a listed method names a type. -/
structure Owned (a : Assembly) : Prop where
  lists : ∀ m (method : Method) t, a.methods[m]? = some method → method.declaring = some t →
    ∃ type : TypeInfo, a.types[t]? = some type ∧ m ∈ type.methods
  owned : ∀ type ∈ a.types, ∀ m ∈ type.methods,
    ∃ (method : Method) (t : Nat), a.methods[m]? = some method ∧ method.declaring = some t

/-- Every listed method is listed once, by the type that it names. -/
structure Partitioned (a : Assembly) : Prop where
  nodup : (a.types.toList.flatMap (·.methods)).Nodup
  owner_iff : ∀ m (method : Method) t, a.methods[m]? = some method →
    (method.declaring = some t ↔ ∃ type : TypeInfo, a.types[t]? = some type ∧ m ∈ type.methods)

/-- Every method of a visible type is visited once and described under its type, and a scan that
succeeds finds it if it is native. -/
structure VisitedOnce (a : Assembly) : Prop where
  visits : a.visits.map (·.index) = a.visibleTypes.flatMap (·.methods)
  nodup : (a.visits.map (·.index)).Nodup
  described : ∀ v ∈ a.visits, a.declaringType? v.method = some v.type ∧
    ∀ d, a.methodDescriptor v.index = .ok d → d.declaring = v.type.name
  found : ∀ f, a.scan = .ok f →
    List.Forall₂ a.Calls (a.visits.filter fun v => v.method.isNative) f.calls

variable {a : Assembly} {tables : TableStream} {rows : List TypeDefRow} {lists : List (List Nat)}

theorem Assigned.getElem?_lists (h : a.Assigned tables rows lists) (t : Nat) :
    lists[t]? = a.types[t]?.map (·.methods) := by
  rw [← h.types, List.getElem?_map, Array.getElem?_toList]

theorem Assigned.owner_cases (h : a.Assigned tables rows lists) {m : Nat} {method : Method}
    (hm : a.methods[m]? = some method) :
    (∃ t type, a.types[t]? = some type ∧ m ∈ type.methods ∧ method.declaring = some t) ∨
    (method.declaring = none ∧ ∀ type ∈ a.types, m ∉ type.methods) := by
  have howner : (declaringTypes a.methods.size lists)[m]? = some method.declaring := by
    rw [← h.declaring, Array.getElem?_map, hm]
    rfl
  rcases declaringTypes_cases howner with ⟨t, found, hfound, hmem, howns⟩ | ⟨hnone, hrest⟩
  · rw [h.getElem?_lists] at hfound
    obtain ⟨type, htype, rfl⟩ := Option.map_eq_some_iff.1 hfound
    exact .inl ⟨t, type, htype, hmem, howns⟩
  · refine .inr ⟨hnone, fun type htype => hrest _ ?_⟩
    rw [← h.types]
    exact List.mem_map_of_mem (Array.mem_toList_iff.2 htype)

theorem Assigned.owned (h : a.Assigned tables rows lists) : a.Owned where
  lists m method t hm ht := by
    rcases h.owner_cases hm with ⟨u, type, htype, hmem, hu⟩ | ⟨hnone, -⟩
    · obtain rfl := Option.some.inj (hu.symm.trans ht)
      exact ⟨type, htype, hmem⟩
    · cases hnone.symm.trans ht
  owned type htype m hm := by
    have hlt := h.listed_lt type htype m hm
    have hmethod := Array.getElem?_eq_getElem hlt
    rcases h.owner_cases hmethod with ⟨t, _, -, -, ht⟩ | ⟨-, hnone⟩
    · exact ⟨_, t, hmethod, ht⟩
    · exact absurd hm (hnone type htype)

/-- **No method is left out behind the first one listed**, if every type begins somewhere and the
list is the table of methods itself. -/
theorem listed_of_first_le (h : a.Assigned tables rows lists)
    (hdirect : tables.table MethodPtrRow = none) (hzero : ∀ row ∈ rows, row.methodList ≠ 0)
    {first : TypeDefRow} (hfirst : rows.head? = some first) {m : Nat}
    (hle : first.methodList ≤ m + 1) (hlt : m < tables.rows .methodDef) :
    ∃ type ∈ a.types, m ∈ type.methods := by
  have hlist : methodList tables = .direct (tables.rows .methodDef) := by
    rw [methodList, hdirect]
  have hcut := h.cut
  rw [hlist] at hcut
  have hstarts : ∀ start ∈ rows.map (·.methodList), start ≠ 0 := List.forall_mem_map.2 hzero
  have hhead : (rows.map (·.methodList)).head? = some first.methodList := by
    rw [List.head?_map, hfirst]
    rfl
  have hplace := mem_flatten_methodRuns (Nat.succ_le_of_lt hlt) hhead hle hstarts
  obtain ⟨k, hk, hnames⟩ := exists_mem_of_forall₂ (forall₂_flatten_of_methodLists hcut) _ hplace
  obtain rfl : m = k := Nat.succ.inj (Except.ok.inj hnames.1)
  obtain ⟨found, hfound, hmem⟩ := List.mem_flatten.1 hk
  rw [← h.types] at hfound
  obtain ⟨type, htype, rfl⟩ := List.mem_map.1 hfound
  exact ⟨type, Array.mem_toList_iff.1 htype, hmem⟩

end Assembly

/-! ## 2. Ordered rows -/

/-- No type begins in front of an earlier one, and no two places of the list name one method. -/
structure OrderedMethods (tables : TableStream) (rows : List TypeDefRow) : Prop where
  ascending : Ascending (rows.map (·.methodList))
  distinct : (Assembly.methodList tables).Distinct

namespace Assembly

variable {a : Assembly} {tables : TableStream} {rows : List TypeDefRow} {lists : List (List Nat)}

theorem Assigned.partitioned (h : a.Assigned tables rows lists)
    (hordered : OrderedMethods tables rows) : a.Partitioned := by
  have hnodup := nodup_flatten_of_methodLists h.cut hordered.ascending hordered.distinct
  refine ⟨?_, fun m method t hm => ⟨h.owned.lists m method t hm, ?_⟩⟩
  · rw [List.flatMap_def, h.types]
    exact hnodup
  · rintro ⟨type, htype, hmem⟩
    rcases h.owner_cases hm with ⟨u, other, hother, hmem', hu⟩ | ⟨-, hnone⟩
    · have htype := (h.getElem?_lists t).trans (congrArg _ htype)
      have hother := (h.getElem?_lists u).trans (congrArg _ hother)
      rw [hu, eq_of_mem_of_nodup_flatten hnodup hother htype hmem' hmem]
    · exact absurd hmem (hnone type (Array.mem_of_getElem? htype))

theorem declaring_of_methodDescriptor {m : Nat} {method : Method} {type : TypeInfo}
    {d : MethodDescriptor} (hm : a.methods[m]? = some method)
    (htype : a.declaringType? method = some type) (h : a.methodDescriptor m = .ok d) :
    d.declaring = type.name := by
  obtain ⟨_, _, _, hm', htype', _, hdeclaring, _⟩ := parts_of_methodDescriptor h
  obtain rfl := Option.some.inj (hm.symm.trans hm')
  obtain rfl := Option.some.inj (htype.symm.trans htype')
  exact hdeclaring

/-- Each method is visited where its own type is. -/
theorem Partitioned.visitedOnce (h : a.Partitioned)
    (hlisted : ∀ t ∈ a.types, ∀ m ∈ t.methods, m < a.methods.size) : a.VisitedOnce := by
  have hvisits : a.visits.map (·.index) = a.visibleTypes.flatMap (·.methods) := by
    have hmap := congrArg (List.map Prod.snd) (map_visits hlisted)
    rw [List.map_map, List.map_flatMap] at hmap
    refine hmap.trans (List.flatMap_congr fun t _ => ?_)
    rw [List.map_map]
    exact List.map_id _
  have howner : ∀ v ∈ a.visits, a.declaringType? v.method = some v.type := by
    intro v hv
    obtain ⟨hvisible, hindex, hmethod⟩ := getElem?_of_mem_visits hv
    obtain ⟨t, ht⟩ := Array.getElem?_of_mem (Array.mem_toList_iff.1 (List.mem_filter.1 hvisible).1)
    rw [declaringType?, (h.owner_iff _ _ t hmethod).2 ⟨v.type, ht, hindex⟩]
    exact ht
  refine ⟨hvisits, ?_, fun v hv => ⟨howner v hv, fun d hd => ?_⟩, fun f hf => ?_⟩
  · obtain ⟨hown, hdisjoint⟩ := List.nodup_flatMap.1 h.nodup
    rw [hvisits]
    exact List.nodup_flatMap.2 ⟨fun t ht => hown t (List.mem_filter.1 ht).1, hdisjoint.filter _⟩
  · exact declaring_of_methodDescriptor (getElem?_of_mem_visits hv).2.2 (howner v hv) hd
  · exact (found_of_scan hf).calls

/-- **The lists of a loaded module.** The type that a method names lists it, and behind the first
method listed none is left out, if every type begins somewhere. If the types begin one behind the
other, every listed method is listed once and visited once, under the type that it names. -/
theorem methods_partitioned {streams : MetadataStreams} {events : List Event}
    (htables : streams.tables = some tables) (hload : ofStreams streams = .ok (a, events)) :
    ∃ rows, tables.allRows TypeDefRow = .ok rows ∧ a.Owned ∧
      (tables.table MethodPtrRow = none → (∀ row ∈ rows, row.methodList ≠ 0) →
        ∀ first, rows.head? = some first → ∀ m, first.methodList ≤ m + 1 →
          m < tables.rows .methodDef → ∃ type ∈ a.types, m ∈ type.methods) ∧
      (OrderedMethods tables rows → a.Partitioned ∧ a.VisitedOnce) := by
  obtain ⟨_, rows, lists, hsame, h⟩ := exists_assigned hload
  obtain rfl := Option.some.inj (htables.symm.trans hsame)
  refine ⟨rows, h.read, h.owned, ?_, fun hordered => ?_⟩
  · intro hdirect hzero first hfirst m hle hlt
    exact listed_of_first_le h hdirect hzero hfirst hle hlt
  · have hpartitioned := h.partitioned hordered
    exact ⟨hpartitioned, hpartitioned.visitedOnce h.listed_lt⟩

/-- What can be checked of the tables of the small module. -/
theorem exists_tables (starts : List Nat) (p : TableStream → List TypeDefRow → Bool)
    (h : ((smallStreams starts).tables.any fun tables =>
      (tables.allRows TypeDefRow).toOption.any (p tables)) = true) :
    ∃ tables rows, (smallStreams starts).tables = some tables ∧
      tables.allRows TypeDefRow = .ok rows ∧ p tables rows := by
  obtain ⟨tables, htables, h⟩ := (Option.any_eq_true _ _).1 h
  obtain ⟨rows, hrows, h⟩ := exists_of_any h
  exact ⟨tables, rows, htables, hrows, h⟩

theorem methods_partitioned_small :
    ∃ tables a events f, (smallStreams [1, 2, 3, 3, 4, 5]).tables = some tables ∧
      ofStreams (smallStreams [1, 2, 3, 3, 4, 5]) = .ok (a, events) ∧ a.scan = .ok f ∧
      a.types.toList.map (·.methods) = [[0], [1], [], [2], [3], [4]] ∧
      (∀ m, m < 5 → ∃ type ∈ a.types, m ∈ type.methods) ∧ a.Partitioned ∧ a.VisitedOnce := by
  obtain ⟨tables, rows, htables, hread, hrows⟩ := exists_tables [1, 2, 3, 3, 4, 5]
    (fun tables rows => decide ((tables.table MethodPtrRow).isNone ∧ tables.rows .methodDef = 5 ∧
      rows.map (·.methodList) = [1, 2, 3, 3, 4, 5])) (by decide +kernel)
  obtain ⟨a, events, f, hload, hscan, ha⟩ := exists_scanned (smallStreams [1, 2, 3, 3, 4, 5])
    (fun a _ => decide (a.types.toList.map (·.methods) = [[0], [1], [], [2], [3], [4]]))
    (by decide +kernel)
  obtain ⟨hdirect, hcount, hcolumn⟩ := of_decide_eq_true hrows
  have hdirect : tables.table MethodPtrRow = none := Option.isNone_iff_eq_none.1 hdirect
  obtain ⟨rows', hread', -, hcover, hordered⟩ := methods_partitioned htables hload
  obtain rfl := Except.ok.inj (hread'.symm.trans hread)
  have hpartitioned : OrderedMethods tables rows' := by
    refine ⟨?_, ?_⟩
    · rw [hcolumn]
      decide
    · rw [methodList, hdirect]
      exact MethodList.distinct_direct _
  have hfirst : ∃ first, rows'.head? = some first ∧ first.methodList = 1 := by
    have hhead := congrArg List.head? hcolumn
    rw [List.head?_map] at hhead
    exact Option.map_eq_some_iff.1 hhead
  obtain ⟨first, hfirst, hone⟩ := hfirst
  have hzero : ∀ row ∈ rows', row.methodList ≠ 0 := by
    rw [← List.forall_mem_map (P := fun start => start ≠ 0), hcolumn]
    decide
  refine ⟨tables, a, events, f, htables, hload, hscan, of_decide_eq_true ha, fun m hm => ?_,
    hordered hpartitioned⟩
  exact hcover hdirect hzero first hfirst m (by omega) (by omega)

/-- Lists that cross: the fourth type begins in front of the third, and the last one nowhere. The
third method is listed and visited twice, the fifth is in no list, and the first is not visited. -/
theorem crossed_lists :
    ∃ tables rows a events f, (smallStreams [1, 2, 4, 3, 5, 0]).tables = some tables ∧
      tables.allRows TypeDefRow = .ok rows ∧
      (tables.table MethodPtrRow = none ∧ tables.rows .methodDef = 5 ∧
        rows.map (·.methodList) = [1, 2, 4, 3, 5, 0]) ∧
      ofStreams (smallStreams [1, 2, 4, 3, 5, 0]) = .ok (a, events) ∧ a.scan = .ok f ∧
      (a.types.toList.map (·.methods) = [[0], [1, 2], [], [2, 3], [], []] ∧
        a.methods.toList.map (·.declaring) = [some 0, some 1, some 3, some 3, none] ∧
        a.methods.toList.map (·.isNative) = [true, false, true, false, false] ∧
        a.visits.map (·.index) = [1, 2, 2, 3] ∧ f.calls.length = 2) ∧
      ¬ (a.types.toList.flatMap (·.methods)).Nodup ∧ ¬ a.Partitioned ∧ ¬ a.VisitedOnce ∧
      ∀ type ∈ a.types, 4 ∉ type.methods := by
  obtain ⟨tables, rows, htables, hread, hrows⟩ := exists_tables [1, 2, 4, 3, 5, 0]
    (fun tables rows => decide ((tables.table MethodPtrRow).isNone ∧ tables.rows .methodDef = 5 ∧
      rows.map (·.methodList) = [1, 2, 4, 3, 5, 0])) (by decide +kernel)
  obtain ⟨a, events, f, hload, hscan, ha⟩ := exists_scanned (smallStreams [1, 2, 4, 3, 5, 0])
    (fun a f => decide (a.types.toList.map (·.methods) = [[0], [1, 2], [], [2, 3], [], []] ∧
      a.methods.toList.map (·.declaring) = [some 0, some 1, some 3, some 3, none] ∧
      a.methods.toList.map (·.isNative) = [true, false, true, false, false] ∧
      a.visits.map (·.index) = [1, 2, 2, 3] ∧ f.calls.length = 2)) (by decide +kernel)
  obtain ⟨hdirect, hcount, hcolumn⟩ := of_decide_eq_true hrows
  have ha := of_decide_eq_true ha
  have hrepeats : ¬ (a.types.toList.flatMap (·.methods)).Nodup := by
    rw [List.flatMap_def, ha.1]
    decide
  refine ⟨tables, rows, a, events, f, htables, hread,
    ⟨Option.isNone_iff_eq_none.1 hdirect, hcount, hcolumn⟩, hload, hscan, ha, hrepeats,
    fun h => hrepeats h.nodup, fun h => ?_, ?_⟩
  · have hvisits := h.nodup
    rw [ha.2.2.2.1] at hvisits
    exact absurd hvisits (by decide)
  · have hnowhere : ∀ found ∈ a.types.toList.map (·.methods), 4 ∉ found := by
      rw [ha.1]
      decide
    exact fun type htype =>
      hnowhere _ (List.mem_map_of_mem (Array.mem_toList_iff.2 htype))

end Assembly

end InteropTables
