import InteropTables.Interop.Findings
import InteropTables.Proofs.Assembly.Ownership

/-!
# What a scan finds

A visit passes, and then what it finds is told by the method and its descriptor; or it offends, and
then there is one failure that it ends the scan with. One of the two is the case for every visit, so
a scan finds what its visits find, one behind the other, or fails as the first visit that offends.

* `Method.isMarked`, `Method.MarkedBy`: a method with a marker, and its first marker;
* `Assembly.Passes`, `Assembly.Offends`: what a visit needs, and how it fails without;
* `Assembly.Calls`, `Assembly.CalledBack`: what is found of a method;
* `inspect_cases`, `exists_inspect_iff`, `inspect_eq_error_iff`: **one visit**;
* `found_of_scan`, `exists_scan_iff`, `scan_eq_error_iff`: **all visits**;
* `map_visits`, `scan_exact`: **the scan of a loaded module.**
-/

namespace InteropTables

/-! ## 1. Markers -/

namespace Method

/-- One of the attributes is a marker. -/
def isMarked (m : Method) : Bool :=
  m.attributes.toList.any fun x => (CallbackMarker.ofAttribute? x).isSome

/-- The first attribute that is a marker is this one. -/
def MarkedBy (m : Method) (marker : CallbackMarker) : Prop :=
  ∃ front x behind, m.attributes.toList = front ++ x :: behind ∧
    (∀ y ∈ front, CallbackMarker.ofAttribute? y = none) ∧
    CallbackMarker.ofAttribute? x = some marker

theorem marker?_eq_some_iff {m : Method} {marker : CallbackMarker} :
    m.marker? = some marker ↔ m.MarkedBy marker := by
  rw [marker?, List.findSome?_eq_some_iff]
  constructor
  · rintro ⟨front, x, behind, hsplit, hx, hfront⟩
    exact ⟨front, x, behind, hsplit, hfront, hx⟩
  · rintro ⟨front, x, behind, hsplit, hfront, hx⟩
    exact ⟨front, x, behind, hsplit, hx, hfront⟩

theorem isSome_marker? (m : Method) : m.marker?.isSome = m.isMarked := by
  rw [marker?, isMarked, List.isSome_findSome?]

/-- The method crosses the native boundary, in one direction or the other. -/
def crosses (m : Method) : Bool :=
  m.isNative || m.isMarked

theorem not_crosses (m : Method) : (!m.crosses) = (!m.isNative && m.marker?.isNone) := by
  rw [crosses, Bool.not_or, ← isSome_marker?, Option.not_isSome]

end Method

/-! ## 2. One visit -/

namespace Assembly

/-- A visit finds all that it needs: a descriptor if the method crosses the boundary, and an import
that names a function if the method is native. -/
structure Passes (a : Assembly) (v : Visit) : Prop where
  described : v.method.crosses → ∃ d, a.methodDescriptor v.index = .ok d
  imported : v.method.isNative → ∃ i, v.method.imported = some i ∧ i.entryPoint ≠ ""

/-- A visit ends the scan with a failure. Without a descriptor the import is not looked at. -/
inductive Offends (a : Assembly) (v : Visit) : Fault → Prop where
  | undescribed {e : Fault} (hcrosses : v.method.crosses)
    (he : a.methodDescriptor v.index = .error e) : Offends a v e
  | unnamed {d : MethodDescriptor} (hnative : v.method.isNative)
    (hd : a.methodDescriptor v.index = .ok d)
    (himport : ∀ i, v.method.imported = some i → i.entryPoint = "") :
    Offends a v (.missingEntryPoint d.display)

/-- The call of the method of a visit. -/
structure Calls (a : Assembly) (v : Visit) (call : NativeCall) : Prop where
  described : a.methodDescriptor v.index = .ok call.method
  imported : ∃ i, v.method.imported = some i ∧ call.entryPoint = i.entryPoint ∧
    call.nativeModule = i.module

/-- The callback of the method of a visit, which has no name yet. -/
structure CalledBack (a : Assembly) (v : Visit) (c : Callback) : Prop where
  described : a.methodDescriptor v.index = .ok c.method
  marked : v.method.MarkedBy c.marker
  unnamed : c.trampoline = none

variable {a : Assembly} {v : Visit} {e : Fault}

theorem Offends.unique {e' : Fault} (h : a.Offends v e) (h' : a.Offends v e') : e = e' := by
  cases h with
  | undescribed _ he =>
    cases h' with
    | undescribed _ he' => exact Except.error.inj (he.symm.trans he')
    | unnamed _ hd' _ => cases he.symm.trans hd'
  | unnamed _ hd _ =>
    cases h' with
    | undescribed _ he' => cases hd.symm.trans he'
    | unnamed _ hd' _ => rw [Except.ok.inj (hd.symm.trans hd')]

theorem Offends.not_passes (h : a.Offends v e) : ¬ a.Passes v := by
  intro hpasses
  cases h with
  | undescribed hcrosses he =>
    obtain ⟨d, hd⟩ := hpasses.described hcrosses
    cases he.symm.trans hd
  | unnamed hnative _ himport =>
    obtain ⟨i, hi, hname⟩ := hpasses.imported hnative
    exact hname (himport i hi)

/-- What a visit finds, as far as calls and callbacks go. -/
structure Found (a : Assembly) (visits : List Visit) (f : Findings) : Prop where
  calls : List.Forall₂ a.Calls (visits.filter fun v => v.method.isNative) f.calls
  callbacks : List.Forall₂ a.CalledBack (visits.filter fun v => v.method.isMarked) f.callbacks

/-- The call of a native method is made of its import, which must name a function. -/
theorem ofImport_cases (m : Method) (d : MethodDescriptor) :
    (∃ i, m.imported = some i ∧ i.entryPoint ≠ "" ∧
      NativeCall.ofImport m.imported d = .ok ⟨i.entryPoint, i.module, d⟩) ∨
    ((∀ i, m.imported = some i → i.entryPoint = "") ∧
      NativeCall.ofImport m.imported d = .error (.missingEntryPoint d.display)) := by
  cases m.imported with
  | none => exact .inr ⟨fun _ h => (nomatch h), rfl⟩
  | some i =>
    by_cases hname : i.entryPoint = ""
    · refine .inr ⟨fun _ h => Option.some.inj h ▸ hname, ?_⟩
      rw [NativeCall.ofImport]
      exact if_pos (String.isEmpty_iff.2 hname)
    · refine .inl ⟨i, rfl, hname, ?_⟩
      rw [NativeCall.ofImport]
      exact if_neg (mt String.isEmpty_iff.1 hname)

/-- The callbacks found of a method whose descriptor is known. -/
theorem callbacks_of_visit {d : MethodDescriptor} (hd : a.methodDescriptor v.index = .ok d) :
    List.Forall₂ a.CalledBack ([v].filter fun v => v.method.isMarked)
      (v.method.marker?.toList.map fun marker => { method := d, marker }) := by
  have hmarked := v.method.isSome_marker?
  rw [List.filter_singleton, ← hmarked]
  cases hmarker : v.method.marker? with
  | none => exact .nil
  | some marker => exact .cons ⟨hd, Method.marker?_eq_some_iff.1 hmarker, rfl⟩ .nil

/-- The calls found of a method that is not native. -/
theorem no_calls_of_visit (hnative : v.method.isNative = false) :
    List.Forall₂ a.Calls ([v].filter fun v => v.method.isNative) [] := by
  rw [List.filter_singleton, hnative]
  exact .nil

/-- **One visit** finds the call and the callback of its method, or ends the scan. -/
theorem inspect_cases (a : Assembly) (v : Visit) :
    (∃ f, a.inspect v = .ok f ∧ a.Passes v ∧ a.Found [v] f) ∨
    ∃ e, a.inspect v = .error e ∧ a.Offends v e := by
  rw [inspect, ← Method.not_crosses]
  by_cases hcrosses : v.method.crosses = true
  · rw [hcrosses, if_neg (by decide)]
    cases hd : a.methodDescriptor v.index with
    | error e => exact .inr ⟨e, rfl, .undescribed hcrosses hd⟩
    | ok d =>
      rw [bind_ok]
      by_cases hnative : v.method.isNative = true
      · rw [if_pos hnative]
        rcases ofImport_cases v.method d with ⟨i, hi, hname, hcall⟩ | ⟨himport, hcall⟩
        · rw [hcall]
          refine .inl ⟨_, rfl, ⟨fun _ => ⟨d, hd⟩, fun _ => ⟨i, hi, hname⟩⟩, ?_,
            callbacks_of_visit hd⟩
          rw [List.filter_singleton, hnative]
          exact .cons ⟨hd, i, hi, rfl, rfl⟩ .nil
        · rw [hcall]
          exact .inr ⟨_, rfl, .unnamed hnative hd himport⟩
      · rw [if_neg hnative]
        rw [Bool.not_eq_true] at hnative
        refine .inl ⟨_, rfl, ⟨fun _ => ⟨d, hd⟩, fun h => ?_⟩, no_calls_of_visit hnative,
          callbacks_of_visit hd⟩
        cases hnative.symm.trans h
  · rw [Bool.not_eq_true] at hcrosses
    -- A method that stays inside is passed over, whatever its signature.
    obtain ⟨hnative, hmarked⟩ := Bool.or_eq_false_iff.1 hcrosses
    rw [hcrosses, if_pos (by decide)]
    refine .inl ⟨_, rfl, ⟨fun h => ?_, fun h => ?_⟩, no_calls_of_visit hnative, ?_⟩
    · cases hcrosses.symm.trans h
    · cases hnative.symm.trans h
    · rw [List.filter_singleton, hmarked]
      exact .nil

/-- A visit that passes finds something, if only nothing. -/
theorem exists_inspect_iff : (∃ f, a.inspect v = .ok f) ↔ a.Passes v := by
  rcases a.inspect_cases v with ⟨f, hf, hpasses, -⟩ | ⟨e, he, hoffends⟩
  · exact ⟨fun _ => hpasses, fun _ => ⟨f, hf⟩⟩
  · refine ⟨fun ⟨f, hf⟩ => ?_, fun h => absurd h hoffends.not_passes⟩
    cases he.symm.trans hf

theorem inspect_eq_error_iff : a.inspect v = .error e ↔ a.Offends v e := by
  rcases a.inspect_cases v with ⟨f, hf, hpasses, -⟩ | ⟨e', he, hoffends⟩
  · refine ⟨fun h => ?_, fun h => absurd hpasses h.not_passes⟩
    cases hf.symm.trans h
  · refine ⟨fun h => ?_, fun h => ?_⟩
    · exact Except.error.inj (he.symm.trans h) ▸ hoffends
    · rw [he, hoffends.unique h]

theorem found_of_inspect {f : Findings} (h : a.inspect v = .ok f) : a.Found [v] f := by
  rcases a.inspect_cases v with ⟨f', hf, -, hfound⟩ | ⟨e, he, -⟩
  · exact Except.ok.inj (hf.symm.trans h) ▸ hfound
  · cases he.symm.trans h

/-! ## 3. All visits -/

/-- What visits find one behind the other is what they find together. -/
theorem found_concat {visits : List Visit} {found : List Findings}
    (h : List.Forall₂ (fun v f => a.inspect v = .ok f) visits found) :
    a.Found visits (.concat found) := by
  induction h with
  | nil => exact ⟨.nil, .nil⟩
  | @cons v f visits found hv _ ih =>
    have hfirst := found_of_inspect hv
    -- What the first visit finds stands in front of what the others find.
    constructor
    · exact List.filter_append ([v]) .. ▸ List.rel_append hfirst.calls ih.calls
    · exact List.filter_append ([v]) .. ▸ List.rel_append hfirst.callbacks ih.callbacks

theorem found_of_scan {f : Findings} (h : a.scan = .ok f) : a.Found a.visits f := by
  obtain ⟨found, hfound, h⟩ := exists_of_bind_ok h
  exact Except.ok.inj h ▸ found_concat (mapM_eq_ok_iff.1 hfound)

/-- **The scan fails as the first visit that offends.** -/
theorem scan_eq_error_iff : a.scan = .error e ↔ ∃ front v behind,
    a.visits = front ++ v :: behind ∧ (∀ u ∈ front, a.Passes u) ∧ a.Offends v e := by
  rw [scan, bind_pure_eq_error_iff, mapM_eq_error_iff]
  simp only [exists_inspect_iff, inspect_eq_error_iff]

/-- **The scan succeeds if all visits pass.** -/
theorem exists_scan_iff : (∃ f, a.scan = .ok f) ↔ ∀ v ∈ a.visits, a.Passes v := by
  constructor
  · rintro ⟨f, hf⟩ v hv
    obtain ⟨found, hfound, -⟩ := exists_of_bind_ok hf
    obtain ⟨f', -, hf'⟩ := exists_mem_of_forall₂ (mapM_eq_ok_iff.1 hfound) v hv
    exact exists_inspect_iff.1 ⟨f', hf'⟩
  · intro hpasses
    cases hscan : a.scan with
    | ok f => exact ⟨f, rfl⟩
    | error e =>
      obtain ⟨front, v, behind, hsplit, -, hoffends⟩ := scan_eq_error_iff.1 hscan
      have hv : v ∈ a.visits := hsplit ▸ List.mem_append_right _ (List.mem_cons_self ..)
      exact absurd (hpasses v hv) hoffends.not_passes

/-! ## 4. Loaded modules -/

theorem getElem?_of_mem_visits (h : v ∈ a.visits) :
    v.type ∈ a.visibleTypes ∧ v.index ∈ v.type.methods ∧ a.methods[v.index]? = some v.method := by
  obtain ⟨type, htype, h⟩ := List.mem_flatMap.1 h
  obtain ⟨index, hindex, h⟩ := List.mem_filterMap.1 h
  obtain ⟨method, hmethod, rfl⟩ := Option.map_eq_some_iff.1 h
  exact ⟨htype, hindex, hmethod⟩

/-- The visits go to the methods that the visible types list, in the order of the lists. -/
theorem map_visits (hlisted : ∀ t ∈ a.types, ∀ m ∈ t.methods, m < a.methods.size) :
    (a.visits.map fun v => (v.type, v.index))
      = a.visibleTypes.flatMap fun t => t.methods.map fun m => (t, m) := by
  rw [visits, List.map_flatMap]
  refine List.flatMap_congr fun t ht => ?_
  have ht : t ∈ a.types := Array.mem_toList_iff.1 (List.mem_filter.1 ht).1
  rw [List.map_filterMap, ← List.filterMap_eq_map]
  refine List.filterMap_congr fun m hm => ?_
  rw [Array.getElem?_eq_getElem (hlisted t ht m hm)]
  rfl

/-- **The scan of a loaded module.** It visits the methods that the visible types list, in the order
of the lists. It succeeds if all visits pass, and then finds one call for each native method and one
callback for each method with a marker, in the order of the visits; otherwise it fails as the first
visit that offends. -/
theorem scan_exact {streams : MetadataStreams} {events : List Event}
    (hload : ofStreams streams = .ok (a, events)) :
    (a.visits.map fun v => (v.type, v.index))
      = (a.visibleTypes.flatMap fun t => t.methods.map fun m => (t, m)) ∧
    (∀ v ∈ a.visits, a.methods[v.index]? = some v.method) ∧
    ((∃ f, a.scan = .ok f) ↔ ∀ v ∈ a.visits, a.Passes v) ∧
    (∀ f, a.scan = .ok f → a.Found a.visits f) ∧
    ∀ e, a.scan = .error e ↔ ∃ front v behind,
      a.visits = front ++ v :: behind ∧ (∀ u ∈ front, a.Passes u) ∧ a.Offends v e := by
  obtain ⟨tables, rows, lists, -, hassigned⟩ := exists_assigned hload
  refine ⟨map_visits hassigned.listed_lt, fun v hv => (getElem?_of_mem_visits hv).2.2,
    exists_scan_iff, fun f => found_of_scan, fun e => scan_eq_error_iff⟩

/-- The tables of a small module, given where the methods of its types begin. The first method,
which the type of global methods lists, and the third are native; the second and the third have an
attribute whose constructor is the fifth. -/
def smallTables (starts : List Nat) : ByteArray := Bytes.ofList <|
  [0, 0, 0, 0, 2, 0, 0, 1] ++ ofNatLE 8 0x14001045 ++ ofNatLE 8 0 ++
  -- The numbers of modules, types, methods, attributes, native modules and imports.
  [1, 6, 5, 2, 1, 2].flatMap (ofNatLE 4) ++
  [0, 1, 0, 0, 0].flatMap (ofNatLE 2) ++
  (([1, 10, 10, 10, 10, 12].zip starts).flatMap fun (name, start) =>
    [0, 0, name, 0, 0, 1, start].flatMap (ofNatLE 2)) ++
  ([0x2016, 0x16, 0x2016, 0x16, 0x16].flatMap fun flags =>
    [0, 0, 0, flags, 41, 1, 1].flatMap (ofNatLE 2)) ++
  [2 * 32, 5 * 8 + 2, 0, 3 * 32, 5 * 8 + 2, 0].flatMap (ofNatLE 2) ++
  ofNatLE 2 41 ++
  [0, 1 * 2 + 1, 41, 1, 0, 3 * 2 + 1, 41, 1].flatMap (ofNatLE 2)

/-- The texts of the small module. -/
def smallTexts : ByteArray :=
  "\x00<Module>\x00T\x00MonoPInvokeCallbackAttribute\x00f\x00".toUTF8

/-- The streams of the small module; all its methods have the same signature. -/
def smallStreams (starts : List Nat) : MetadataStreams where
  tables := (TableStream.read (smallTables starts)).toOption
  strings := (StringHeap.ofBytes smallTexts).toOption
  blobs := (BlobHeap.ofBytes (Bytes.ofList [0, 3, 0, 0, 1])).toOption

/-- What can be checked of a module and of its scan can be checked by loading and scanning it. -/
theorem exists_scanned (streams : MetadataStreams) (p : Assembly → Findings → Bool)
    (h : ((ofStreams streams).toOption.any fun x => x.1.scan.toOption.any (p x.1)) = true) :
    ∃ a events f, ofStreams streams = .ok (a, events) ∧ a.scan = .ok f ∧ p a f := by
  obtain ⟨⟨a, events⟩, hload, h⟩ := exists_of_any h
  obtain ⟨f, hscan, hf⟩ := exists_of_any h
  exact ⟨a, events, f, hload, hscan, hf⟩

theorem scan_exact_small :
    ∃ a events f, ofStreams (smallStreams [1, 2, 3, 3, 4, 5]) = .ok (a, events) ∧
      a.scan = .ok f ∧
      (a.visits.map (·.index) = [1, 2, 3, 4] ∧ f.calls.length = 1 ∧ f.callbacks.length = 2) ∧
      (∀ v ∈ a.visits, a.Passes v) ∧ a.Found a.visits f := by
  obtain ⟨a, events, f, hload, hscan, hf⟩ := exists_scanned (smallStreams [1, 2, 3, 3, 4, 5])
    (fun a f => decide (a.visits.map (·.index) = [1, 2, 3, 4] ∧ f.calls.length = 1 ∧
      f.callbacks.length = 2)) (by decide +kernel)
  obtain ⟨-, -, hok, hfound, -⟩ := scan_exact hload
  exact ⟨a, events, f, hload, hscan, of_decide_eq_true hf, hok.1 ⟨f, hscan⟩, hfound f hscan⟩

end Assembly

end InteropTables
