import InteropTables.Interop.Artifact
import InteropTables.Proofs.Interop.Emission

/-!
# What is rendered

Text is made of findings unless a callback cannot pass or two callbacks share a name. The first
callback that cannot pass decides, wherever names are shared; and of the shared names the one that
occurs again first in the order of the callbacks.

* `checkCallbacks_eq_error_iff`: how the check fails;
* `nameCallbacks_of_nodup`, `nameCallbacks_of_repetition`: how naming succeeds and fails;
* `Findings.Renders`: the text that is made of findings, or why none is made;
* `renders_iff`: **what is rendered.**
-/

namespace InteropTables

/-! ## 1. Checking and naming -/

variable {callbacks : List Callback}

theorem checkCallbacks_eq_mapM (callbacks : List Callback) :
    checkCallbacks callbacks = do return (fun _ => ()) (← callbacks.mapM Callback.check) := by
  induction callbacks with
  | nil => rfl
  | cons c callbacks ih =>
    have hcons : checkCallbacks (c :: callbacks)
        = (c.check >>= fun _ => checkCallbacks callbacks) := rfl
    rw [hcons, ih, List.mapM_cons]
    cases c.check with
    | error e => rfl
    | ok u => cases callbacks.mapM Callback.check <;> rfl

/-- The first callback that cannot pass decides how the check fails. -/
theorem checkCallbacks_eq_error_iff {e : Fault} : checkCallbacks callbacks = .error e ↔
    ∃ front c behind, callbacks = front ++ c :: behind ∧ (∀ b ∈ front, b.check = .ok ()) ∧
      c.check = .error e := by
  have hok : ∀ c : Callback, (∃ found, c.check = .ok found) ↔ c.check = .ok () :=
    fun _ => ⟨fun ⟨_, h⟩ => h, fun h => ⟨(), h⟩⟩
  rw [checkCallbacks_eq_mapM, bind_pure_eq_error_iff, mapM_eq_error_iff]
  simp only [hok]

/-- Callbacks with new names are named. -/
theorem nameOnto_append {front : List Callback} (rest : List Callback) :
    ∀ named : List Callback, (front.map Callback.trampolineName).Nodup →
      (∀ c ∈ front, ∀ other ∈ named, other.trampoline ≠ some c.trampolineName) →
      nameOnto named (front ++ rest)
        = nameOnto ((front.map Callback.withName).reverse ++ named) rest := by
  induction front with
  | nil => exact fun _ _ _ => rfl
  | cons c front ih =>
    intro named hnodup hfresh
    rw [List.map_cons, List.nodup_cons] at hnodup
    have hnew : ¬ (named.any fun other => other.trampoline == some c.trampolineName) = true := by
      intro hany
      obtain ⟨other, hother, hsame⟩ := List.any_eq_true.1 hany
      exact hfresh c (List.mem_cons_self ..) other hother (beq_iff_eq.1 hsame)
    rw [List.cons_append, nameOnto, if_neg hnew, ih _ hnodup.2 ?_]
    · rw [List.map_cons, List.reverse_cons, List.append_assoc]
      rfl
    · intro d hd other hother
      rcases List.mem_cons.1 hother with rfl | hother
      · intro hsame
        exact hnodup.1 (List.mem_map.2 ⟨d, hd, (Option.some.inj hsame).symm⟩)
      · exact hfresh d (List.mem_cons_of_mem _ hd) other hother

/-- Callbacks of which no two share a name are all named. -/
theorem nameCallbacks_of_nodup (h : (callbacks.map Callback.trampolineName).Nodup) :
    nameCallbacks callbacks = (.ok (), (sortCallbacks callbacks).map Callback.withName) := by
  have hsorted : ((sortCallbacks callbacks).map Callback.trampolineName).Nodup :=
    ((sortCallbacks_perm callbacks).map _).nodup_iff.2 h
  have hall := nameOnto_append [] [] hsorted fun _ _ _ h => absurd h List.not_mem_nil
  rw [List.append_nil] at hall
  unfold nameCallbacks
  rw [hall, nameOnto, List.append_nil, List.reverse_reverse]

/-- Naming fails at the first name that occurs again. The callbacks in front are named, the others
are left as they are. -/
theorem nameCallbacks_of_repetition {front behind : List Callback} {c : Callback}
    (hsplit : sortCallbacks callbacks = front ++ c :: behind)
    (hfront : (front.map Callback.trampolineName).Nodup)
    (hc : c.trampolineName ∈ front.map Callback.trampolineName) :
    nameCallbacks callbacks = (.error (.duplicateTrampoline c.trampolineName),
      front.map Callback.withName ++ c :: behind) := by
  unfold nameCallbacks
  rw [hsplit, nameOnto_append (c :: behind) [] hfront fun _ _ _ h => absurd h List.not_mem_nil,
    nameOnto]
  obtain ⟨d, hd, hsame⟩ := List.mem_map.1 hc
  have hany : ((front.map Callback.withName).reverse ++ []).any
      (fun other => other.trampoline == some c.trampolineName) = true := by
    refine List.any_eq_true.2 ⟨d.withName, ?_, beq_iff_eq.2 (congrArg some hsame)⟩
    rw [List.append_nil, List.mem_reverse]
    exact List.mem_map_of_mem hd
  rw [if_pos hany, List.append_nil, List.reverse_reverse]

/-! ## 2. The text -/

/-- The text that is made of findings, or why none is made: a callback cannot pass, and the first
such one decides; or two callbacks share a name, and the first name to occur again decides. -/
inductive Findings.Renders (found : Findings) (modules : NativeModules) :
    Except Fault String → Prop where
  | unchecked {front behind : List Callback} {c : Callback} {e : Fault}
      (hsplit : found.callbacks = front ++ c :: behind) (hfront : ∀ b ∈ front, b.check = .ok ())
      (hc : c.check = .error e) : Renders found modules (.error e)
  | collided {front behind : List Callback} {c : Callback}
      (hchecked : ∀ c ∈ found.callbacks, c.check = .ok ())
      (hsplit : sortCallbacks found.callbacks = front ++ c :: behind)
      (hfront : (front.map Callback.trampolineName).Nodup)
      (hc : c.trampolineName ∈ front.map Callback.trampolineName) :
      Renders found modules (.error (.duplicateTrampoline c.trampolineName))
  | rendered {trampolines : String} (hchecked : ∀ c ∈ found.callbacks, c.check = .ok ())
      (hnames : (found.callbacks.map Callback.trampolineName).Nodup)
      (htrampolines : (emitTrampolines found.callbacks).1 = .ok trampolines) :
      Renders found modules (.ok (declarationsText found.calls modules ++ trampolines))

theorem text_render (found : Findings) (modules : NativeModules) :
    (Artifact.render found modules).text
      = (emitTrampolines found.callbacks).1.map (declarationsText found.calls modules ++ ·) := by
  unfold Artifact.render
  split <;> rename_i hemit <;> rw [hemit] <;> rfl

/-- **What is rendered.** -/
theorem renders_iff {found : Findings} {modules : NativeModules} {result : Except Fault String} :
    found.Renders modules result ↔ (Artifact.render found modules).text = result := by
  rw [text_render]
  constructor
  · intro h
    cases h with
    | unchecked hsplit hfront hc =>
      have hcheck := checkCallbacks_eq_error_iff.2 ⟨_, _, _, hsplit, hfront, hc⟩
      unfold emitTrampolines
      rw [hcheck]
      rfl
    | collided hchecked hsplit hfront hc =>
      rw [emitTrampolines_of_check (checkCallbacks_eq_ok_iff.2 hchecked)]
      dsimp only
      rw [nameCallbacks_of_repetition hsplit hfront hc]
      rfl
    | rendered hchecked hnames htrampolines =>
      rw [htrampolines]
      rfl
  · rintro rfl
    cases hcheck : checkCallbacks found.callbacks with
    | error e =>
      obtain ⟨front, c, behind, hsplit, hfront, hc⟩ := checkCallbacks_eq_error_iff.1 hcheck
      unfold emitTrampolines
      rw [hcheck]
      exact .unchecked hsplit hfront hc
    | ok u =>
      have hchecked := checkCallbacks_eq_ok_iff.1 hcheck
      have hemit := emitTrampolines_of_check hcheck
      by_cases hnames : (found.callbacks.map Callback.trampolineName).Nodup
      · rw [nameCallbacks_of_nodup hnames] at hemit
        have htrampolines := congrArg Prod.fst hemit
        rw [htrampolines]
        exact .rendered hchecked hnames htrampolines
      · have hsorted : ¬ ((sortCallbacks found.callbacks).map Callback.trampolineName).Nodup :=
          mt ((sortCallbacks_perm found.callbacks).map _).nodup_iff.1 hnames
        obtain ⟨front, c, behind, hsplit, hfront, hc⟩ := exists_first_repetition hsorted
        rw [hemit]
        dsimp only
        rw [nameCallbacks_of_repetition hsplit hfront hc]
        exact .collided hchecked hsplit hfront hc

end InteropTables
