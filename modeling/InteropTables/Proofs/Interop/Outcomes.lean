import InteropTables.Proofs.Interop.Rendering
import InteropTables.Proofs.TextOrder

/-!
# How an emission ends

An emission looks at the callbacks twice: in the given order for types that cannot pass, and in the
order of their keys for names. So it ends in one of three ways, and each leaves the callbacks in a
known state: as they were, in order with all their names, or in order with the names in front of the
first that occurs again.

* `Callback.Passes`, `Callback.Offends`: what a callback needs, and how it fails without;
* `Callback.check_eq_ok_iff`, `Callback.check_eq_error_iff`: **one callback**;
* `CallbackKey.Before`, `InEmissionOrder`: the order of keys by bytes, and callbacks put in it;
* `inEmissionOrder_iff`: **there is one such order of the callbacks**;
* `Emits`: the ways in which an emission ends;
* `emitTrampolines_eq_iff`: **every emission ends so, and in no other way.**
-/

namespace InteropTables

/-! ## 1. One callback -/

section Offending

variable {α : Type} {ok : α → Bool} {l : List α}

theorem firstOffending_eq_none_iff : firstOffending ok l = none ↔ ∀ a ∈ l, ok a := by
  simp only [firstOffending, Option.map_eq_none_iff, List.find?_eq_none, Prod.forall,
    List.mem_zipIdx_iff_getElem?, Bool.not_eq_true', Bool.not_eq_false]
  constructor
  · intro h a ha
    obtain ⟨i, hi⟩ := List.getElem?_of_mem ha
    exact h a i hi
  · exact fun h a i hi => h a (List.mem_of_getElem? hi)

/-- The first element without a property stands behind as many elements as its position says, and
these have it. -/
theorem firstOffending_eq_some_iff {i : Nat} {a : α} : firstOffending ok l = some (i, a) ↔
    ∃ front behind, l = front ++ a :: behind ∧ front.length = i ∧ (∀ b ∈ front, ok b) ∧ ¬ ok a := by
  rw [firstOffending, Option.map_eq_some_iff]
  constructor
  · rintro ⟨⟨a, i⟩, hfound, hpair⟩
    obtain ⟨rfl, rfl⟩ := Prod.mk.inj hpair
    obtain ⟨ha, front, behind, hsplit, hfront⟩ := List.find?_eq_some_iff_append.1 hfound
    obtain ⟨front, rest, rfl, rfl, hrest⟩ := List.zipIdx_eq_append_iff.1 hsplit
    obtain ⟨_, behind, rfl, hfirst, -⟩ := List.zipIdx_eq_cons_iff.1 hrest.symm
    obtain ⟨rfl, rfl⟩ := Prod.mk.inj hfirst
    refine ⟨front, behind, rfl, (Nat.zero_add _).symm, fun b hb => ?_, by simpa using ha⟩
    obtain ⟨i, hi⟩ := List.getElem?_of_mem hb
    simpa using hfront (b, i) (List.mem_zipIdx_iff_getElem?.2 hi)
  · rintro ⟨front, behind, rfl, rfl, hfront, ha⟩
    refine ⟨(a, front.length), List.find?_eq_some_iff_append.2 ⟨by simpa using ha, front.zipIdx,
      behind.zipIdx (front.length + 1), ?_, ?_⟩, rfl⟩
    · rw [List.zipIdx_append, List.zipIdx_cons, Nat.zero_add]
    · rintro ⟨b, i⟩ hb
      simpa using hfront b (List.fst_mem_of_mem_zipIdx hb)

end Offending

namespace Callback

/-- A callback passes: its result is nothing or blittable, and all its parameters are blittable. -/
structure Passes (c : Callback) : Prop where
  result : c.method.result.isVoid ∨ c.method.result.isBlittable
  parameters : ∀ p ∈ c.method.parameters, p.isBlittable

/-- A callback fails. The result is looked at before the parameters, and these in their order. -/
inductive Offends (c : Callback) : Fault → Prop where
  | result (hresult : ¬ (c.method.result.isVoid ∨ c.method.result.isBlittable)) :
    Offends c (.nonBlittableReturn c.method.display c.method.result.full)
  | parameter {front behind : List TypeDescriptor} {t : TypeDescriptor}
    (hresult : c.method.result.isVoid ∨ c.method.result.isBlittable)
    (hsplit : c.method.parameters = front ++ t :: behind) (hfront : ∀ p ∈ front, p.isBlittable)
    (ht : ¬ t.isBlittable) :
    Offends c (.nonBlittableParameter c.method.display front.length t.full)

variable {c : Callback}

theorem check_of_not_result (h : ¬ (c.method.result.isVoid ∨ c.method.result.isBlittable)) :
    c.check = .error (.nonBlittableReturn c.method.display c.method.result.full) := by
  rw [not_or, Bool.not_eq_true, Bool.not_eq_true] at h
  unfold check
  simp [h.1, h.2]

/-- Behind the result the first parameter that is not blittable decides. -/
theorem check_of_result (h : c.method.result.isVoid ∨ c.method.result.isBlittable) :
    c.check = match firstOffending TypeDescriptor.isBlittable c.method.parameters with
      | some (i, t) => .error (.nonBlittableParameter c.method.display i t.full)
      | none => .ok () := by
  have hskip : (!c.method.result.isVoid && !c.method.result.isBlittable) = false := by
    rcases h with h | h <;> simp [h]
  unfold check
  simp only [hskip]
  rfl

/-- **A callback is accepted exactly when it passes.** -/
theorem check_eq_ok_iff : c.check = .ok () ↔ c.Passes := by
  by_cases hresult : c.method.result.isVoid ∨ c.method.result.isBlittable
  · rw [check_of_result hresult]
    cases hfirst : firstOffending TypeDescriptor.isBlittable c.method.parameters with
    | none => exact ⟨fun _ => ⟨hresult, firstOffending_eq_none_iff.1 hfirst⟩, fun _ => rfl⟩
    | some found =>
      refine ⟨fun h => (nomatch h), fun h => ?_⟩
      rw [firstOffending_eq_none_iff.2 h.parameters] at hfirst
      cases hfirst
  · rw [check_of_not_result hresult]
    exact ⟨fun h => (nomatch h), fun h => absurd h.result hresult⟩

/-- **It is rejected with the failure by which it offends.** -/
theorem check_eq_error_iff {e : Fault} : c.check = .error e ↔ c.Offends e := by
  by_cases hresult : c.method.result.isVoid ∨ c.method.result.isBlittable
  · rw [check_of_result hresult]
    constructor
    · intro h
      split at h
      · rename_i i t hfirst
        obtain ⟨front, behind, hsplit, rfl, hfront, ht⟩ := firstOffending_eq_some_iff.1 hfirst
        exact Except.error.inj h ▸ .parameter hresult hsplit hfront ht
      · cases h
    · rintro (hnot | ⟨-, hsplit, hfront, ht⟩)
      · exact absurd hresult hnot
      · rw [firstOffending_eq_some_iff.2 ⟨_, _, hsplit, rfl, hfront, ht⟩]
  · rw [check_of_not_result hresult]
    constructor
    · exact fun h => Except.error.inj h ▸ .result hresult
    · rintro (hnot | ⟨hresult', -, -, -⟩)
      · rfl
      · exact absurd hresult' hresult

end Callback

/-! ## 2. The order of callbacks -/

deriving instance DecidableEq for CallbackKey

/-- A key comes before another: by the bytes of the module, the type and the method, and by the
token, the first of these that differs. -/
def CallbackKey.Before (k l : CallbackKey) : Prop :=
  BytesBefore k.identity l.identity ∨ k.identity = l.identity ∧
    (BytesBefore k.type l.type ∨ k.type = l.type ∧
      (BytesBefore k.method l.method ∨ k.method = l.method ∧ k.token < l.token))

theorem CallbackKey.compare_eq_lt_iff {k l : CallbackKey} : k.compare l = .lt ↔ k.Before l := by
  have hthen : k.compare l = (Ord.compare k.identity l.identity).then
      ((Ord.compare k.type l.type).then
        ((Ord.compare k.method l.method).then (Ord.compare k.token l.token))) := rfl
  simp only [hthen, Ordering.then_eq_lt, InteropTables.compare_eq_lt_iff, compare_eq_iff_eq,
    Nat.compare_eq_lt, Before]

theorem CallbackKey.isLE_iff_not_before {k l : CallbackKey} :
    (k.compare l).isLE ↔ ¬ l.Before k := by
  rw [← compare_eq_lt_iff, ← Std.OrientedCmp.gt_iff_lt]
  cases k.compare l <;> simp

/-- Callbacks put in the order of their keys. Those of one key keep their order. -/
structure InEmissionOrder (ordered callbacks : List Callback) : Prop where
  perm : ordered.Perm callbacks
  ascending : ordered.Pairwise fun a b => ¬ b.key.Before a.key
  stable : ∀ key, ordered.filter (fun c => c.key = key) = callbacks.filter fun c => c.key = key

variable {callbacks ordered : List Callback}

theorem Callback.compare_kind (a : Callback) :
    (fun b : Callback => a.compare b == .eq) = fun b => decide (b.key = a.key) := by
  funext b
  rw [Bool.eq_iff_iff, beq_iff_eq, decide_eq_true_iff, compare_eq]
  constructor
  · exact fun h => (CallbackKey.eq_of_compare h).symm
  · intro h
    rw [h]
    exact Std.ReflCmp.compare_self

/-- **There is one such order of the callbacks**, in which they are sorted. -/
theorem inEmissionOrder_iff :
    InEmissionOrder ordered callbacks ↔ ordered = sortCallbacks callbacks := by
  constructor
  · intro h
    refine eq_of_filter_eq Callback.compare ?_ (sortCallbacks_ordered callbacks)
      fun a => ?_
    · exact h.ascending.imp CallbackKey.isLE_iff_not_before.2
    · have hkind := filter_kind_mergeSort Callback.compare a callbacks
      rw [Callback.compare_kind] at hkind ⊢
      exact (h.stable a.key).trans hkind.symm
  · rintro rfl
    refine ⟨sortCallbacks_perm callbacks,
      (sortCallbacks_ordered callbacks).imp CallbackKey.isLE_iff_not_before.1, fun key => ?_⟩
    refine filter_mergeSort Callback.compare (fun a b ha hb => ?_) callbacks
    rw [Callback.compare_eq, of_decide_eq_true ha, of_decide_eq_true hb]
    exact Std.ReflCmp.isLE_rfl

/-! ## 3. The outcome -/

/-- How an emission ends, and the callbacks that it leaves. Types are looked at in the given order,
and the first callback that offends decides before any is moved or named. Names are given in the
order of the keys, up to the first that is given already. -/
inductive Emits (callbacks : List Callback) : Except Fault String → List Callback → Prop where
  | rejected {front behind : List Callback} {c : Callback} {e : Fault}
    (hsplit : callbacks = front ++ c :: behind) (hfront : ∀ b ∈ front, b.Passes)
    (hc : c.Offends e) : Emits callbacks (.error e) callbacks
  | emitted {ordered : List Callback} (hpasses : ∀ c ∈ callbacks, c.Passes)
    (horder : InEmissionOrder ordered callbacks)
    (hnames : (ordered.map Callback.trampolineName).Nodup) :
    Emits callbacks (.ok (trampolinesText (ordered.map Callback.withName)))
      (ordered.map Callback.withName)
  | collided {front behind : List Callback} {c : Callback} (hpasses : ∀ c ∈ callbacks, c.Passes)
    (horder : InEmissionOrder (front ++ c :: behind) callbacks)
    (hfront : (front.map Callback.trampolineName).Nodup)
    (hc : c.trampolineName ∈ front.map Callback.trampolineName) :
    Emits callbacks (.error (.duplicateTrampoline c.trampolineName))
      (front.map Callback.withName ++ c :: behind)

theorem checkCallbacks_eq_ok_iff_passes :
    checkCallbacks callbacks = .ok () ↔ ∀ c ∈ callbacks, c.Passes := by
  simp only [checkCallbacks_eq_ok_iff, Callback.check_eq_ok_iff]

/-- An emission ends in one of the three ways. -/
theorem emits_emitTrampolines (callbacks : List Callback) :
    Emits callbacks (emitTrampolines callbacks).1 (emitTrampolines callbacks).2 := by
  cases hcheck : checkCallbacks callbacks with
  | error e =>
    obtain ⟨front, c, behind, hsplit, hfront, hc⟩ := checkCallbacks_eq_error_iff.1 hcheck
    simp only [Callback.check_eq_ok_iff] at hfront
    rw [emitTrampolines, hcheck]
    exact .rejected hsplit hfront (Callback.check_eq_error_iff.1 hc)
  | ok u =>
    have hpasses := checkCallbacks_eq_ok_iff_passes.1 hcheck
    rw [emitTrampolines_of_check hcheck]
    by_cases hnames : ((sortCallbacks callbacks).map Callback.trampolineName).Nodup
    · rw [nameCallbacks_of_nodup (((sortCallbacks_perm callbacks).map _).nodup_iff.1 hnames)]
      exact .emitted hpasses (inEmissionOrder_iff.2 rfl) hnames
    · obtain ⟨front, c, behind, hsplit, hfront, hc⟩ := exists_first_repetition hnames
      rw [nameCallbacks_of_repetition hsplit hfront hc]
      exact .collided hpasses (inEmissionOrder_iff.2 hsplit.symm) hfront hc

/-- **Every emission ends in one of the three ways, and in no other.** -/
theorem emitTrampolines_eq_iff {result : Except Fault String} {final : List Callback} :
    emitTrampolines callbacks = (result, final) ↔ Emits callbacks result final := by
  constructor
  · intro h
    have hemits := emits_emitTrampolines callbacks
    rwa [h] at hemits
  · intro h
    cases h with
    | rejected hsplit hfront hc =>
      have hcheck := checkCallbacks_eq_error_iff.2 ⟨_, _, _, hsplit,
        fun b hb => Callback.check_eq_ok_iff.2 (hfront b hb), Callback.check_eq_error_iff.2 hc⟩
      rw [emitTrampolines, hcheck]
    | emitted hpasses horder hnames =>
      obtain rfl := inEmissionOrder_iff.1 horder
      rw [emitTrampolines_of_check (checkCallbacks_eq_ok_iff_passes.2 hpasses),
        nameCallbacks_of_nodup (((sortCallbacks_perm callbacks).map _).nodup_iff.1 hnames)]
      rfl
    | collided hpasses horder hfront hc =>
      rw [emitTrampolines_of_check (checkCallbacks_eq_ok_iff_passes.2 hpasses),
        nameCallbacks_of_repetition (inEmissionOrder_iff.1 horder).symm hfront hc]
      rfl

end InteropTables
