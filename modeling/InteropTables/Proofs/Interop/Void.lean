import InteropTables.Proofs.Assembly.Described
import InteropTables.Proofs.Interop.Outcomes
import InteropTables.Proofs.Interop.Scanning

/-!
# Nothing is spelled as nothing

Whether a callback may pass is decided by the kinds of its types, and what is written for them by
their simple names. For the callbacks of a module both say the same of the void type: it is the
result of a method that returns nothing, and no parameter.

* `ofType_eq_void_iff`: a type that may pass is spelled as the void type if it is that type;
* `passes_of_check`: what was checked of a callback;
* `Trampoline.Serves`: a trampoline that passes on what a method takes and returns;
* `void_agrees`: **the callbacks of a module.**
-/

namespace InteropTables

/-! ## 1. One type -/

theorem append_ne_voidName (s : String) {mark : String} {c : Char} (hmark : mark.toList = [c])
    (hc : c ≠ 'd') : s ++ mark ≠ voidName := by
  intro h
  have hlast := congrArg (fun s : String => s.toList.getLast?) h
  rw [String.toList_append, hmark, List.getLast?_concat] at hlast
  exact hc (Option.some.inj hlast)

/-- **A type that may pass is spelled as the void type if it is that type.** -/
theorem ofType_eq_void_iff {t : TypeDescriptor} (hnamed : t.WellNamed)
    (hpasses : t.isVoid ∨ t.isBlittable) : CType.ofType t = .void ↔ t.isVoid := by
  unfold CType.ofType
  rw [CType.ofName_eq_void_iff]
  unfold TypeDescriptor.WellNamed at hnamed
  unfold TypeDescriptor.isVoid TypeDescriptor.isBlittable at *
  generalize t.flavor = flavor at *
  cases flavor with
  | void => exact ⟨fun _ => rfl, fun _ => hnamed⟩
  | primitive =>
    refine ⟨fun hname => ?_, fun h => nomatch h⟩
    rw [hname] at hnamed
    exact absurd hnamed (by decide)
  | byRef =>
    obtain ⟨s, hs⟩ := hnamed
    have hother : t.name ≠ voidName := hs ▸ append_ne_voidName s rfl (by decide)
    exact ⟨fun hname => absurd hname hother, fun h => nomatch h⟩
  | pointer =>
    obtain ⟨s, hs⟩ := hnamed
    have hother : t.name ≠ voidName := hs ▸ append_ne_voidName s rfl (by decide)
    exact ⟨fun hname => absurd hname hother, fun h => nomatch h⟩
  | _ => rcases hpasses with h | h <;> cases h

theorem not_isVoid_of_isBlittable {t : TypeDescriptor} (h : t.isBlittable) : t.isVoid = false := by
  unfold TypeDescriptor.isBlittable at h
  unfold TypeDescriptor.isVoid
  cases hflavor : t.flavor with
  | void => rw [hflavor] at h; cases h
  | _ => rfl

/-! ## 2. One callback -/

/-- What was checked of a callback. -/
theorem passes_of_check {c : Callback} (h : c.check = .ok ()) :
    (c.method.result.isVoid ∨ c.method.result.isBlittable) ∧
      ∀ p ∈ c.method.parameters, p.isBlittable := by
  obtain ⟨hresult, hparameters⟩ := Callback.check_eq_ok_iff.1 h
  exact ⟨hresult, hparameters⟩

/-- A trampoline passes on what a method takes and returns: no parameter of it is void, and it has
a place for the result if the method returns something. -/
structure Trampoline.Serves (t : Trampoline) (m : MethodDescriptor) : Prop where
  parameters : ∀ p ∈ t.parameters, p ≠ .void
  returns : t.returns = !m.result.isVoid
  slots : t.slots = (if m.result.isVoid then 0 else 1) + m.parameters.length + 1
  result : "&res" ∈ t.arguments ↔ m.result.isVoid = false

theorem mem_arguments_iff (t : Trampoline) : "&res" ∈ t.arguments ↔ t.returns = true := by
  have hplaces : "&res" ∉ (List.range t.parameters.length).map fun i => "&arg" ++ toString i := by
    intro h
    obtain ⟨i, -, hi⟩ := List.mem_map.1 h
    have hsecond := congrArg (fun s : String => s.toList[1]?) hi
    simp at hsecond
  have hlast : "&res" ≠ t.descriptor ++ ".arg" := by
    intro h
    have hfirst := congrArg (fun s : String => s.toList.getLast?) h
    simp at hfirst
  unfold Trampoline.arguments
  rw [List.mem_append, List.mem_append, List.mem_singleton]
  cases t.returns with
  | true => exact ⟨fun _ => rfl, fun _ => .inl (.inl (List.mem_singleton_self _))⟩
  | false =>
    refine ⟨fun h => ?_, fun h => nomatch h⟩
    rcases h with (h | h) | h
    · cases h
    · exact absurd h hplaces
    · exact absurd h hlast

theorem serves_ofCallback {c : Callback} (i : Nat)
    (hresult : CType.ofType c.method.result = .void ↔ c.method.result.isVoid)
    (hparameters : ∀ p ∈ c.method.parameters, CType.ofType p ≠ .void) :
    (Trampoline.ofCallback i c).Serves c.method := by
  have hreturns : (Trampoline.ofCallback i c).returns = !c.method.result.isVoid := by
    show (!(CType.ofType c.method.result).isVoid) = _
    unfold CType.isVoid
    rw [Bool.not_inj_iff, Bool.eq_iff_iff, ← hresult, beq_iff_eq]
  refine ⟨?_, hreturns, ?_, ?_⟩
  · intro p hp
    obtain ⟨t, ht, rfl⟩ := List.mem_map.1 hp
    exact hparameters t ht
  · unfold Trampoline.slots
    rw [hreturns]
    cases c.method.result.isVoid <;> simp [Trampoline.ofCallback]
  · rw [mem_arguments_iff, hreturns, Bool.not_eq_true']

/-- Every callback that was emitted has its trampoline in the text. -/
theorem exists_trampoline {callbacks final : List Callback} {text : String}
    (h : emitTrampolines callbacks = (.ok text, final)) {c : Callback} (hc : c ∈ callbacks) :
    text = trampolinesText final ∧
      ∃ i, (trampolines final)[i]? = some (Trampoline.ofCallback i c.withName) := by
  obtain ⟨-, hnamed, htext⟩ := named_of_emitTrampolines h
  have hmem : c.withName ∈ final := by
    rw [(nameCallbacks_of_ok hnamed).1]
    exact List.mem_map_of_mem ((sortCallbacks_perm callbacks).mem_iff.2 hc)
  obtain ⟨i, hi⟩ := List.getElem?_of_mem hmem
  refine ⟨htext, i, ?_⟩
  unfold trampolines
  rw [List.getElem?_map, List.getElem?_zipIdx, hi, Option.map_some, Option.map_some, Nat.zero_add]

/-! ## 3. The callbacks of a module -/

/-- **The callbacks of a module.** Where a callback that was found may pass, its result is spelled
as the void type if it is that type and no parameter is spelled so. Whatever its number and name,
its trampoline serves the method; and the trampoline that is written for it is such a one. -/
theorem void_agrees {a : Assembly} {f : Findings} (hscan : a.scan = .ok f)
    {callbacks : List Callback} (hchecked : checkCallbacks callbacks = .ok ()) {c : Callback}
    (hfound : c ∈ f.callbacks) (hc : c ∈ callbacks) :
    (CType.ofType c.method.result = .void ↔ c.method.result.isVoid) ∧
    (∀ p ∈ c.method.parameters, CType.ofType p ≠ .void) ∧
    (∀ i name, (Trampoline.ofCallback i { c with trampoline := name }).Serves c.method) ∧
    ∀ text final, emitTrampolines callbacks = (.ok text, final) → text = trampolinesText final ∧
      ∃ (i : Nat) (t : Trampoline), (trampolines final)[i]? = some t ∧ t.name = c.trampolineName ∧
        t.Serves c.method := by
  obtain ⟨v, hv, hcalled⟩ := exists_mem_of_forall₂ (Assembly.found_of_scan hscan).callbacks.flip c
    hfound
  obtain ⟨hresult, hparameters⟩ := Assembly.wellNamed_of_methodDescriptor hcalled.described
  obtain ⟨hpasses, hblittable⟩ := passes_of_check (checkCallbacks_eq_ok_iff.1 hchecked c hc)
  have hvoid := ofType_eq_void_iff hresult hpasses
  have hnone : ∀ p ∈ c.method.parameters, CType.ofType p ≠ .void := by
    intro p hp h
    have hisVoid := (ofType_eq_void_iff (hparameters p hp) (.inr (hblittable p hp))).1 h
    rw [not_isVoid_of_isBlittable (hblittable p hp)] at hisVoid
    cases hisVoid
  refine ⟨hvoid, hnone, fun i name => serves_ofCallback i hvoid hnone, fun text final hemit => ?_⟩
  obtain ⟨htext, i, hi⟩ := exists_trampoline hemit hc
  exact ⟨htext, i, _, hi, rfl, serves_ofCallback i hvoid hnone⟩

/-- A module with two callbacks. The first takes a pointer to nothing and a number and returns
nothing; the second takes a reference to the void type and returns that type, by its name. -/
def voidModule : Assembly where
  identity := "M"
  types := #[
    { token := Token.ofParts 2 1, name := .topLevel "" "<Module>", flags := 0 },
    { token := Token.ofParts 2 2, name := .topLevel "" "T", flags := 0, methods := [0, 1] }]
  methods := #[
    { token := Token.ofParts 6 1, name := "f", flags := .ofColumn 0x16, implFlags := 0,
      declaring := some 1, signature := Bytes.ofList [0, 2, 0x01, 0x0F, 0x01, 0x0A],
      attributes := #[.resolved "" CallbackMarker.monoPInvokeCallbackName] },
    { token := Token.ofParts 6 2, name := "g", flags := .ofColumn 0x16, implFlags := 0,
      declaring := some 1, signature := Bytes.ofList [0, 1, 0x11, 5, 0x10, 0x11, 5],
      attributes := #[.resolved "" CallbackMarker.monoPInvokeCallbackName] }]
  references := #[.topLevel systemSpace voidName]
  specifications := #[]

theorem void_agrees_voidModule :
    ∃ f, voidModule.scan = .ok f ∧ checkCallbacks f.callbacks = .ok () ∧
      (f.callbacks.map fun c => (c.method.result.name, c.method.parameters.map (·.name)))
        = [("Void", ["Void*", "Int64"]), ("Void", ["Void&"])] ∧
      ∀ c ∈ f.callbacks, (CType.ofType c.method.result = .void ↔ c.method.result.isVoid) ∧
        (∀ p ∈ c.method.parameters, CType.ofType p ≠ .void) ∧
        ∃ text final, emitTrampolines f.callbacks = (.ok text, final) ∧
          text = trampolinesText final ∧ ∃ (i : Nat) (t : Trampoline),
            (trampolines final)[i]? = some t ∧ t.name = c.trampolineName ∧ t.Serves c.method := by
  obtain ⟨f, hscan, hf⟩ := exists_of_any (x := voidModule.scan)
    (p := fun f => (checkCallbacks f.callbacks).isOk && decide
      ((f.callbacks.map fun c => (c.method.result.name, c.method.parameters.map (·.name)))
        = [("Void", ["Void*", "Int64"]), ("Void", ["Void&"])] ∧
      (f.callbacks.map Callback.trampolineName).Nodup)) (by decide +kernel)
  obtain ⟨hok, hdecided⟩ := Bool.and_eq_true_iff.1 hf
  obtain ⟨htypes, hnames⟩ := of_decide_eq_true hdecided
  have hchecked : checkCallbacks f.callbacks = .ok () := by
    cases hcheck : checkCallbacks f.callbacks with
    | ok u => rfl
    | error e => rw [hcheck] at hok; cases hok
  have hemitted := emitTrampolines_of_check hchecked
  rw [nameCallbacks_of_nodup hnames] at hemitted
  refine ⟨f, hscan, hchecked, htypes, fun c hc => ?_⟩
  obtain ⟨hvoid, hnone, -, hemit⟩ := void_agrees hscan hchecked hc hc
  exact ⟨hvoid, hnone, _, _, hemitted, hemit _ _ hemitted⟩

end InteropTables
