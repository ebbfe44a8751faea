import InteropTables.Proofs.Exact
import InteropTables.Proofs.Signature.Chains
import InteropTables.Proofs.Signature.ReadBack

/-!
# The parts of the decoder of signatures are exact

The parts of the decoder depend on the bytes that they use and on no others, and they run out of
bytes at the end of every front of these. The only step that goes on there is the one that passes
over modifiers, and the step behind it does not: it is exact together with this step.

* `exact_modifiers`: modifiers, and a step that uses a byte behind them;
* `ParamLayout`, `ExtraLayout`, `MethodLayout`: what stands where in a method signature that has
  been read, given what types are read from;
* `exact_parametersOnto`, `exact_methodOver`: **parameters and method signatures are exact**, with
  as many parameters as announced, in their order.
-/

namespace InteropTables

open Reader

namespace Signature

variable {α : Type}

/-! ## 1. Modifiers -/

/-- Passing over modifiers has used a chain of them, and stops at the end or at another byte. The
induction is on the clock, which is long enough for all that is left. -/
theorem modifiersWithin_used (clock : List UInt8) {c c' : Cursor} {u : Unit}
    (hclock : c.rest.length ≤ clock.length) (h : modifiersWithin clock c = (.ok u, c')) :
    ∃ ms, ModifiersCode ms ∧ c.rest = ms ++ c'.rest ∧ (c'.rest = [] ∨ StartsPlain c'.rest) := by
  induction clock generalizing c with
  | nil =>
    have hend : c.rest = [] := List.eq_nil_of_length_eq_zero (Nat.le_zero.1 hclock)
    cases h
    exact ⟨[], .nil, rfl, .inl hend⟩
  | cons tick clock ih =>
    obtain ⟨rest, position, depth⟩ := c
    cases rest with
    | nil =>
      cases h
      exact ⟨[], .nil, rfl, .inl rfl⟩
    | cons b rest =>
      simp only [modifiersWithin] at h
      by_cases hb : isModifier b = true
      · rw [if_pos hb] at h
        rcases htoken : token ⟨rest, position + 1, depth⟩ with ⟨_ | k, c₁⟩
        · simp only [htoken] at h
          cases h
        · simp only [htoken] at h
          obtain ⟨bytes, hrest, -, n, number, tag⟩ := exact_token _ k c₁ htoken
          have hrest : rest = bytes ++ c₁.rest := hrest
          have hshorter : c₁.rest.length ≤ clock.length := by
            have hlength := congrArg List.length hrest
            simp only [List.length_append] at hlength
            simp only [List.length_cons] at hclock
            omega
          obtain ⟨ms, hms, hmore, hstop⟩ := ih hshorter h
          refine ⟨b :: bytes ++ ms, .cons (.mk hb number tag) hms, ?_, hstop⟩
          show b :: rest = _
          simp only [hrest, hmore, List.cons_append, List.append_assoc]
      · rw [if_neg hb] at h
        cases h
        exact ⟨[], .nil, rfl, .inr ⟨b, rest, rfl, Bool.eq_false_iff.2 hb⟩⟩

theorem takes_token {n : Nat} {bytes : List UInt8} (number : NumberCode n bytes) (tag : n % 4 ≠ 3) :
    ∃ k, Takes token k bytes := by
  obtain ⟨k, hk⟩ := reads_token_of_tag number tag
  exact ⟨k, (exact_token.of_reads hk).1⟩

/-- Passing over the modifiers that a front of a chain of them holds stops at the end, or fails
there. -/
theorem modifiersWithin_cut {ms : List UInt8} (h : ModifiersCode ms) :
    ∀ (clock front behind : List UInt8) (position depth : Nat), front ++ behind = ms →
      front.length ≤ clock.length →
      (∃ c, modifiersWithin clock ⟨front, position, depth⟩ = (.error .outOfBounds, c)) ∨
      ∃ position', modifiersWithin clock ⟨front, position, depth⟩
        = (.ok (), ⟨[], position', depth⟩) := by
  have hend : ∀ (clock : List UInt8) (position depth : Nat),
      modifiersWithin clock ⟨[], position, depth⟩ = (.ok (), ⟨[], position, depth⟩) := by
    intro clock position depth
    cases clock <;> rfl
  induction h with
  | nil =>
    intro clock front behind position depth happend _
    obtain rfl := (List.append_eq_nil_iff.1 happend).1
    exact .inr ⟨position, hend clock position depth⟩
  | @cons first more hfirst _ ih =>
    intro clock front behind position depth happend hclock
    cases hfirst with
    | @mk b n bytes mark number tag =>
      rcases List.append_eq_cons_iff.1 happend with ⟨rfl, _⟩ | ⟨front', rfl, happend'⟩
      · exact .inr ⟨position, hend clock position depth⟩
      cases clock with
      | nil => exact absurd hclock (Nat.not_succ_le_zero _)
      | cons tick clock =>
        simp only [List.length_cons, Nat.add_le_add_iff_right] at hclock
        obtain ⟨k, hk⟩ := takes_token number tag
        simp only [modifiersWithin, mark, if_true]
        by_cases hcut : ∃ z, z ≠ [] ∧ front' ++ z = bytes
        · obtain ⟨z, hz, hbytes⟩ := hcut
          have hstarves := hk.starves front' z hbytes hz (position + 1) depth
          rcases htoken : token ⟨front', position + 1, depth⟩ with ⟨outcome, c⟩
          rw [htoken] at hstarves
          obtain rfl : outcome = .error .outOfBounds := hstarves
          exact .inl ⟨c, rfl⟩
        · obtain ⟨z, rfl, hz⟩ : ∃ z, front' = bytes ++ z ∧ z ++ behind = more := by
            rcases List.append_eq_append_iff.1 happend'.symm with ⟨z, hbytes, hz⟩ | ⟨z, hfront, hz⟩
            · by_cases hnil : z = []
              · subst hnil
                exact ⟨[], by simpa using hbytes.symm, by simpa using hz⟩
              · exact absurd ⟨z, hnil, hbytes.symm⟩ hcut
            · exact ⟨z, hfront, hz.symm⟩
          simp only [hk.reads z (position + 1) depth]
          rw [List.length_append] at hclock
          exact ih clock z behind (position + 1 + bytes.length) depth hz (by omega)

/-- **Modifiers are exact together with a step that uses a byte behind them.** -/
theorem exact_modifiers {Whole : α → List UInt8 → Prop} {r : Reader α}
    (h : ∀ ms, ModifiersCode ms →
      Exact (fun a behind => behind ≠ [] ∧ Whole a (ms ++ behind)) r) :
    Exact Whole (modifiers >>= fun _ => r) := by
  intro c a c' hr
  rw [bind_apply] at hr
  rcases hrun : modifiers c with ⟨_ | u, c₁⟩
  · rw [hrun] at hr
    cases hr
  rw [hrun] at hr
  obtain ⟨ms, hms, hrest, hstop⟩ := modifiersWithin_used c.rest (Nat.le_refl _) hrun
  obtain ⟨bytes, hbytes, htakes, hne, hwhole⟩ := h ms hms c₁ a c' hr
  have hplain : StartsPlain bytes := by
    obtain ⟨first, tail, rfl⟩ := List.exists_cons_of_ne_nil hne
    rw [hbytes, List.cons_append] at hstop
    rcases hstop with hstop | ⟨b, _, hstop, hb⟩
    · cases hstop
    · exact ⟨first, tail, rfl, (List.cons.inj hstop).1 ▸ hb⟩
  refine ⟨ms ++ bytes, by rw [hrest, hbytes, List.append_assoc],
    ⟨reads_modifiers hms hplain htakes.reads, fun x y hxy hy position depth => ?_⟩, hwhole⟩
  -- a front that ends within the modifiers, or behind them all, or within what follows them
  by_cases hinside : ∃ z, x ++ z = ms
  · obtain ⟨z, hz⟩ := hinside
    rcases modifiersWithin_cut hms x x z position depth hz (Nat.le_refl _) with
      ⟨c₂, hcut⟩ | ⟨position', hcut⟩
    · have hfails : modifiers ⟨x, position, depth⟩ = (.error .outOfBounds, c₂) := hcut
      rw [bind_of_error hfails]
    · have hends : modifiers ⟨x, position, depth⟩ = (.ok (), ⟨[], position', depth⟩) := hcut
      rw [bind_of_ok hends]
      exact htakes.starves [] bytes rfl hne position' depth
  · obtain ⟨z, rfl, hz⟩ : ∃ z, x = ms ++ z ∧ z ++ y = bytes := by
      rcases List.append_eq_append_iff.1 hxy with ⟨z, hx, _⟩ | ⟨z, hx, hz⟩
      · exact absurd ⟨z, hx.symm⟩ hinside
      · exact ⟨z, hx, hz.symm⟩
    have hz' : z ≠ [] := fun hnil => hinside ⟨[], by rw [hnil]; simp⟩
    obtain ⟨b, tail, hbytes', hb⟩ := hplain
    obtain ⟨first, more, rfl⟩ := List.exists_cons_of_ne_nil hz'
    have hfirst : first = b := by
      rw [← hz, List.cons_append] at hbytes'
      exact (List.cons.inj hbytes').1
    have hpassed : modifiers ⟨ms ++ first :: more, position, depth⟩
        = (.ok (), ⟨first :: more, position + ms.length, depth⟩) :=
      modifiersWithin_of_code hms _ _ position depth (by simp) ⟨first, more, rfl, hfirst ▸ hb⟩
    rw [bind_of_ok hpassed]
    exact htakes.starves _ y hz hy _ depth

/-! ## 2. Parameters -/

section Parameters

variable {T : SigType → List UInt8 → Prop} {P : SigParam → List UInt8 → Prop}

/-- What a parameter is read from: modifiers, the mark of a reference if it is one, and its type. -/
inductive ParamLayout (T : SigType → List UInt8 → Prop) : SigParam → List UInt8 → Prop where
  | value {t : SigType} {ms bytes : List UInt8} (modifiers : ModifiersCode ms) (type : T t bytes) :
      ParamLayout T ⟨false, t⟩ (ms ++ bytes)
  | reference {t : SigType} {ms bytes : List UInt8} (modifiers : ModifiersCode ms)
      (type : T t bytes) : ParamLayout T ⟨true, t⟩ (ms ++ byRefCode :: bytes)

/-- A parameter with or without a sentinel in front of it. -/
inductive MarkedLayout (P : SigParam → List UInt8 → Prop) : SigParam → List UInt8 → Prop where
  | plain {p : SigParam} {bytes : List UInt8} (param : P p bytes) : MarkedLayout P p bytes
  | marked {p : SigParam} {bytes : List UInt8} (param : P p bytes) :
      MarkedLayout P p (sentinelCode :: bytes)

/-- What the parameters that are not fixed are read from: a sentinel stands in front of the first,
and may stand in front of every other. -/
inductive ExtraLayout (P : SigParam → List UInt8 → Prop) : List SigParam → List UInt8 → Prop where
  | none : ExtraLayout P [] []
  | some {p : SigParam} {ps : List SigParam} {front behind : List UInt8} (head : P p front)
      (tail : ListCode (MarkedLayout P) ps behind) :
      ExtraLayout P (p :: ps) (sentinelCode :: (front ++ behind))

theorem ParamLayout.ne_nil (hT : ∀ t bytes, T t bytes → bytes ≠ []) {p : SigParam}
    {bytes : List UInt8} (h : ParamLayout T p bytes) : bytes ≠ [] := by
  cases h with
  | value _ type => simp [hT _ _ type]
  | reference _ _ => simp

/-- **A parameter is exact if its type is.** -/
theorem exact_parameter {type : Reader SigType} (h : Exact T type)
    (hT : ∀ t bytes, T t bytes → bytes ≠ []) : Exact (ParamLayout T) (parameter type) := by
  refine exact_modifiers fun ms hms => exact_peek fun b => ?_
  by_cases hb : (b == byRefCode) = true
  · rw [if_pos hb]
    refine exact_skip.bind fun _ front hfront => h.bind fun t bytes ht => exact_pure ?_
    obtain ⟨first, rfl⟩ := hfront
    refine ⟨first, bytes, by simp, fun hfirst => ⟨by simp, ?_⟩⟩
    obtain rfl : first = byRefCode := hfirst.trans (eq_of_beq hb)
    simpa using ParamLayout.reference hms ht
  · rw [if_neg hb]
    refine h.bind fun t bytes ht => exact_pure ?_
    obtain ⟨first, tail, rfl⟩ := List.exists_cons_of_ne_nil (hT t bytes ht)
    refine ⟨first, tail, by simp, fun _ => ⟨by simp, ?_⟩⟩
    simpa using ParamLayout.value hms ht

variable {param : Reader SigParam}

/-- Once a parameter behind the sentinel is there, all that follow join it. -/
theorem exact_extra (h : Exact P param) (hP : ∀ p bytes, P p bytes → bytes ≠ [])
    (fixed : List SigParam) (n : Nat) :
    ∀ extra : List SigParam, extra.isEmpty = false →
      Exact (fun out bytes => ∃ more, out = (fixed.reverse, extra.reverse ++ more) ∧
        more.length = n ∧ ListCode (MarkedLayout P) more bytes)
        (parametersOnto param n fixed extra) := by
  induction n with
  | zero =>
    intro extra _
    exact exact_pure ⟨[], by rw [List.append_nil], rfl, .nil⟩
  | succ n ih =>
    intro extra hextra
    rw [parametersOnto_succ]
    refine exact_peek fun b => ?_
    by_cases hb : (b == sentinelCode) = true
    · rw [if_pos hb]
      refine exact_skip.bind fun _ front hfront => h.bind fun p bytes hp =>
        (ih (p :: extra) rfl).mono fun out behind hout => ?_
      obtain ⟨first, rfl⟩ := hfront
      obtain ⟨more, rfl, hlength, hcode⟩ := hout
      refine ⟨first, bytes ++ behind, by simp, fun hfirst => ⟨p :: more, by simp, by simp [hlength],
        ?_⟩⟩
      obtain rfl : first = sentinelCode := hfirst.trans (eq_of_beq hb)
      simpa using ListCode.cons (MarkedLayout.marked hp) hcode
    · rw [if_neg hb]
      refine h.bind fun p bytes hp => ?_
      rw [if_neg (by simp [hextra])]
      refine (ih (p :: extra) rfl).mono fun out behind hout => ?_
      obtain ⟨more, rfl, hlength, hcode⟩ := hout
      obtain ⟨first, tail, rfl⟩ := List.exists_cons_of_ne_nil (hP p bytes hp)
      refine ⟨first, tail ++ behind, by simp, fun _ => ⟨p :: more, by simp, by simp [hlength], ?_⟩⟩
      exact .cons (.plain hp) hcode

/-- **Parameters are exact**: there are as many as asked for, in their order. -/
theorem exact_parametersOnto (h : Exact P param) (hP : ∀ p bytes, P p bytes → bytes ≠ [])
    (n : Nat) :
    ∀ fixed : List SigParam,
      Exact (fun out bytes => ∃ ps vs front behind, bytes = front ++ behind ∧
        out = (fixed.reverse ++ ps, vs) ∧ ps.length + vs.length = n ∧ ListCode P ps front ∧
        ExtraLayout P vs behind) (parametersOnto param n fixed []) := by
  induction n with
  | zero =>
    intro fixed
    exact exact_pure ⟨[], [], [], [], rfl, by simp, rfl, .nil, .none⟩
  | succ n ih =>
    intro fixed
    rw [parametersOnto_succ]
    refine exact_peek fun b => ?_
    by_cases hb : (b == sentinelCode) = true
    · rw [if_pos hb]
      refine exact_skip.bind fun _ front hfront => h.bind fun p bytes hp =>
        (exact_extra h hP fixed n [p] rfl).mono fun out behind hout => ?_
      obtain ⟨first, rfl⟩ := hfront
      obtain ⟨more, rfl, hlength, hcode⟩ := hout
      refine ⟨first, bytes ++ behind, by simp, fun hfirst => ⟨[], p :: more, [], _, rfl, by simp,
        by simp [hlength], .nil, ?_⟩⟩
      obtain rfl : first = sentinelCode := hfirst.trans (eq_of_beq hb)
      simpa using ExtraLayout.some hp hcode
    · rw [if_neg hb]
      refine h.bind fun p bytes hp => ?_
      rw [if_pos List.isEmpty_nil]
      refine (ih (p :: fixed)).mono fun out behind hout => ?_
      obtain ⟨ps, vs, front, rest, rfl, rfl, hlength, hfixed, hextra⟩ := hout
      obtain ⟨first, tail, rfl⟩ := List.exists_cons_of_ne_nil (hP p bytes hp)
      refine ⟨first, tail ++ (front ++ rest), by simp, fun _ => ⟨p :: ps, vs,
        first :: tail ++ front, rest, by simp, by simp, ?_, .cons hp hfixed, hextra⟩⟩
      rw [List.length_cons]
      omega

end Parameters

/-! ## 3. Method signatures -/

/-- What a method signature is read from: its first byte, the number of generic parameters if there
are any, the number of parameters, the result, and the parameters. -/
inductive MethodLayout (T : SigType → List UInt8 → Prop) : SigMethod → List UInt8 → Prop where
  | mk {lead : UInt8} {genericCount : Nat} {result : SigParam} {params varargs : List SigParam}
      {gs cs rs ps vs : List UInt8} (generic : GenericCode lead genericCount gs)
      (count : NumberCode (params.length + varargs.length) cs) (back : ParamLayout T result rs)
      (fixed : ListCode (ParamLayout T) params ps)
      (extra : ExtraLayout (ParamLayout T) varargs vs) :
      MethodLayout T ⟨lead &&& 0x20 != 0, lead &&& 0x40 != 0, lead.toNat % 16, genericCount, result,
        params, varargs⟩ (lead :: (gs ++ (cs ++ (rs ++ (ps ++ vs)))))

/-- **A method signature is exact if its types are.** -/
theorem exact_methodOver {T : SigType → List UInt8 → Prop} {type : Reader SigType}
    (h : Exact T type) (hT : ∀ t bytes, T t bytes → bytes ≠ []) :
    Exact (MethodLayout T) (methodOver type) := by
  refine exact_next_bind fun lead => ?_
  by_cases hconvention : isMethodConvention (lead.toNat % 16) = true
  · rw [if_pos hconvention]
    have hparam := exact_parameter h hT
    have hmore : ∀ genericCount gs, GenericCode lead genericCount gs →
        Exact (fun m behind => MethodLayout T m (lead :: (gs ++ behind)))
          (compressed >>= fun count => parameter type >>= fun result =>
            parameters (parameter type) count >>= fun out =>
              pure ⟨lead &&& 0x20 != 0, lead &&& 0x40 != 0, lead.toNat % 16, genericCount, result,
                out.1, out.2⟩) := by
      intro genericCount gs hgeneric
      refine exact_compressed.bind fun count cs hcount => hparam.bind fun result rs hresult =>
        (exact_parametersOnto hparam (fun _ _ hp => hp.ne_nil hT) count []).bind
          fun out bytes hout => exact_pure ?_
      obtain ⟨params, varargs, ps, vs, rfl, rfl, rfl, hfixed, hextra⟩ := hout
      rw [List.append_nil]
      exact .mk hgeneric hcount hresult hfixed hextra
    by_cases hflag : (lead &&& 0x10 != 0) = true
    · simp only [if_pos hflag]
      exact exact_compressed.bind fun genericCount gs hnumber =>
        hmore genericCount gs (.counted hflag hnumber)
    · simp only [if_neg hflag]
      exact hmore 0 [] (.none (Bool.eq_false_iff.2 hflag))
  · rw [if_neg hconvention]
    exact exact_fail _

end Signature

end InteropTables
