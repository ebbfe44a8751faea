import InteropTables.Proofs.Assembly.Attributes
import InteropTables.Proofs.Interop.Scanning

/-!
# What a scan does not look at

The signature of a method that stays inside is never decoded, and an attribute of unknown type is
never a marker. Two modules that differ in these alone are scanned alike: with the same findings, or
with the same failure.

* `Attribute.isResolved`: the attributes that can be markers;
* `Method.SameInterop`, `Assembly.SameInterop`: what may differ;
* `methodDescriptor_congr`, `inspect_congr`: one method;
* `scan_congr`: **the scan.**
-/

namespace InteropTables

/-- The type of the attribute is known. -/
def Attribute.isResolved : Attribute → Bool
  | .resolved .. => true
  | .unresolved _ => false

/-! ## 1. Methods -/

namespace Method

/-- Two methods that differ at most in attributes of unknown type, wherever these stand, and, if
the first stays inside, in the signature. -/
structure SameInterop (m n : Method) : Prop where
  rest : n = { m with signature := n.signature, attributes := n.attributes }
  attributes : n.attributes.toList.filter (·.isResolved) = m.attributes.toList.filter (·.isResolved)
  signature : m.crosses → n.signature = m.signature

theorem findSome?_filter_isResolved (attributes : List Attribute) :
    (attributes.filter (·.isResolved)).findSome? CallbackMarker.ofAttribute?
      = attributes.findSome? CallbackMarker.ofAttribute? := by
  induction attributes with
  | nil => rfl
  | cons x attributes ih =>
    cases x with
    | resolved space name =>
      rw [List.filter_cons_of_pos rfl, List.findSome?_cons, List.findSome?_cons, ih]
    | unresolved reason =>
      -- An attribute of unknown type is passed over with or without the filter.
      rw [List.filter_cons_of_neg Bool.false_ne_true, ih]
      rfl

variable {m n : Method}

theorem SameInterop.marker?_eq (h : m.SameInterop n) : n.marker? = m.marker? := by
  unfold marker?
  rw [← findSome?_filter_isResolved, h.attributes, findSome?_filter_isResolved]

theorem SameInterop.isNative_eq (h : m.SameInterop n) : n.isNative = m.isNative := by
  rw [h.rest]
  rfl

theorem SameInterop.crosses_eq (h : m.SameInterop n) : n.crosses = m.crosses := by
  unfold crosses
  rw [h.isNative_eq, ← isSome_marker?, ← isSome_marker?, h.marker?_eq]

theorem SameInterop.imported_eq (h : m.SameInterop n) : n.imported = m.imported := by
  rw [h.rest]

end Method

/-! ## 2. Modules -/

namespace Assembly

/-- Two modules whose methods differ in nothing that a scan may look at. -/
structure SameInterop (a b : Assembly) : Prop where
  rest : b = { a with methods := b.methods }
  methods : ∀ i : Nat, Option.Rel Method.SameInterop a.methods[i]? b.methods[i]?

variable {a b : Assembly}

theorem SameInterop.visibleTypes_eq (h : a.SameInterop b) : b.visibleTypes = a.visibleTypes := by
  rw [h.rest]
  rfl

/-- With the same signature, a method is described alike in both modules. -/
theorem methodDescriptor_congr (h : a.SameInterop b) {i : Nat} {m n : Method}
    (hm : a.methods[i]? = some m) (hn : b.methods[i]? = some n) (hsame : m.SameInterop n)
    (hsignature : n.signature = m.signature) : b.methodDescriptor i = a.methodDescriptor i := by
  have hparameter : b.describeParameter = a.describeParameter := by
    unfold describeParameter describe
    rw [h.rest, describeWithin_withMethods]
  have hdeclaring : b.declaringType? n = a.declaringType? m := by
    rw [h.rest, hsame.rest]
    rfl
  have hidentity : b.identity = a.identity := by
    rw [h.rest]
  have hname : n.name = m.name := by
    rw [hsame.rest]
  have htoken : n.token = m.token := by
    rw [hsame.rest]
  unfold methodDescriptor
  rw [hm, hn]
  simp only [hdeclaring, hsignature, hparameter, hidentity, hname, htoken]

/-- **A visit finds the same in both modules.** Either its method crosses the boundary, and then it
has the same signature in both; or it stays inside, and then its signature is not looked at. -/
theorem inspect_congr (h : a.SameInterop b) (type : TypeInfo) {i : Nat} {m n : Method}
    (hm : a.methods[i]? = some m) (hn : b.methods[i]? = some n) (hsame : m.SameInterop n) :
    b.inspect ⟨type, i, n⟩ = a.inspect ⟨type, i, m⟩ := by
  unfold inspect
  dsimp only
  rw [← Method.not_crosses, ← Method.not_crosses, hsame.crosses_eq]
  by_cases hcrosses : m.crosses = true
  · rw [methodDescriptor_congr h hm hn hsame (hsame.signature hcrosses), hsame.isNative_eq,
      hsame.imported_eq, hsame.marker?_eq]
  · rw [Bool.not_eq_true] at hcrosses
    rw [hcrosses]
    rfl

/-- The visits of both modules go to the same places and find the same there. -/
theorem visits_congr (h : a.SameInterop b) :
    List.Forall₂ (fun v w => b.inspect w = a.inspect v) a.visits b.visits := by
  unfold visits
  rw [h.visibleTypes_eq]
  refine List.rel_flatMap (R := Eq) (List.forall₂_same.2 fun _ _ => rfl) ?_
  rintro type _ rfl
  refine List.rel_filterMap (R := Eq) ?_ (List.forall₂_same.2 fun _ _ => rfl)
  rintro i _ rfl
  have hmethods := h.methods i
  dsimp only
  generalize hm : a.methods[i]? = m? at hmethods ⊢
  generalize hn : b.methods[i]? = n? at hmethods ⊢
  cases hmethods with
  | none => exact .none
  | some hsame => exact .some (inspect_congr h type hm hn hsame)

/-- **A scan finds the same in both modules, or fails in the same way.** -/
theorem scan_congr (h : a.SameInterop b) : b.scan = a.scan := by
  unfold scan
  rw [mapM_congr (visits_congr h)]

/-- A module with a method that stays inside, of a given signature, and a callback and a native
method with given attributes of unknown type around those that they have. -/
def mixedModule (signature : List UInt8) (unknown : Array Attribute) : Assembly where
  identity := "M"
  types := #[
    { token := Token.ofParts 2 1, name := .topLevel "" "<Module>", flags := 0 },
    { token := Token.ofParts 2 2, name := .topLevel "" "T", flags := 0, methods := [0, 1, 2] }]
  methods := #[
    { token := Token.ofParts 6 1, name := "f", flags := .ofColumn 0x16, implFlags := 0,
      declaring := some 1, signature := Bytes.ofList signature, attributes := unknown },
    { token := Token.ofParts 6 2, name := "g", flags := .ofColumn 0x16, implFlags := 0,
      declaring := some 1, signature := Bytes.ofList [0, 0, 1],
      attributes := unknown ++ #[.resolved "" CallbackMarker.monoPInvokeCallbackName] ++ unknown },
    { token := Token.ofParts 6 3, name := "h", flags := .ofColumn 0x2016, implFlags := 0,
      declaring := some 1, signature := Bytes.ofList [0, 0, 1],
      imported := some ⟨"m", "h", 0⟩, attributes := unknown }]
  references := #[]
  specifications := #[]

/-- A signature of two bytes that mean nothing makes no difference, nor do two attributes of unknown
type in front of the marker and behind it. -/
theorem scan_congr_mixed :
    (mixedModule [0, 0, 1] #[]).SameInterop
      (mixedModule [0xFF, 0x7F] #[.unresolved "x", .unresolved "y"]) ∧
    ∃ f, (mixedModule [0, 0, 1] #[]).scan = .ok f ∧
      (mixedModule [0xFF, 0x7F] #[.unresolved "x", .unresolved "y"]).scan = .ok f ∧
      f.calls.length = 1 ∧ f.callbacks.length = 1 := by
  have hsame : (mixedModule [0, 0, 1] #[]).SameInterop
      (mixedModule [0xFF, 0x7F] #[.unresolved "x", .unresolved "y"]) := by
    refine ⟨rfl, fun i => ?_⟩
    match i with
    | 0 => exact .some ⟨rfl, by decide, fun hcrosses => nomatch hcrosses⟩
    | 1 => exact .some ⟨rfl, by decide, fun _ => rfl⟩
    | 2 => exact .some ⟨rfl, by decide, fun _ => rfl⟩
    | i + 3 => exact .none
  obtain ⟨f, hscan, hf⟩ := exists_of_any (x := (mixedModule [0, 0, 1] #[]).scan)
    (p := fun f => decide (f.calls.length = 1 ∧ f.callbacks.length = 1)) (by decide +kernel)
  exact ⟨hsame, f, hscan, (scan_congr hsame).trans hscan, of_decide_eq_true hf⟩

end Assembly

end InteropTables
