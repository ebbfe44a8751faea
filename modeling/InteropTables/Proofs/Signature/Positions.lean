import InteropTables.Proofs.Compressed
import InteropTables.Proofs.Signature.Chains

/-!
# Positions of generic parameters

A generic parameter stands in a signature by its position, and the position by a packed number. So
however a type is put together, the positions in it are below the span of the packed form.

* `Always`: what holds of every value that a step gives, and `Always.bind`, `always_repeatedOnto`,
  `always_parametersOnto`: how it passes on;
* `SigType.positions`: the positions of the generic parameters in a type;
* `always_typeBehind`, `always_methodOver`: one type and one method signature over their parts;
* `positions_lt_of_decodeMethod`: **every position that was read is below the span.**
-/

namespace InteropTables

open Reader

/-! ## 1. Values that a step can give -/

namespace Reader

variable {α β : Type}

/-- Every value that the step gives has the property, wherever the step is taken. -/
def Always (P : α → Prop) (r : Reader α) : Prop :=
  ∀ c a c', r c = (.ok a, c') → P a

variable {P : α → Prop} {Q : β → Prop} {r : Reader α}

theorem always_pure {a : α} (h : P a) : Always P (pure a) := by
  intro c a' c' hr
  obtain ⟨ha, -⟩ := Prod.mk.inj hr
  exact Except.ok.inj ha ▸ h

theorem always_fail (e : Fault) : Always P (fail e) := by
  intro c a c' hr
  cases hr

theorem Always.bind {f : α → Reader β} (hr : Always P r) (hf : ∀ a, P a → Always Q (f a)) :
    Always Q (r >>= f) := by
  intro c b c' h
  rw [bind_apply] at h
  rcases hrun : r c with ⟨_ | a, c₁⟩
  · rw [hrun] at h
    cases h
  · rw [hrun] at h
    exact hf a (hr c a c₁ hrun) c₁ b c' h

/-- A step whose value does not matter. -/
theorem always_bind {f : α → Reader β} (hf : ∀ a, Always Q (f a)) : Always Q (r >>= f) :=
  have hany : Always (fun _ => True) r := fun _ _ _ _ => trivial
  hany.bind fun a _ => hf a

theorem always_ite {p : Prop} [Decidable p] {r' : Reader α} (hr : Always P r) (hr' : Always P r') :
    Always P (if p then r else r') := by
  split
  · exact hr
  · exact hr'

theorem always_compressed : Always (· < compressedSpan) compressed :=
  fun _ _ _ => compressed_lt

theorem Always.descend (h : Always P r) : Always P (descend r) := by
  intro c a c' hr
  obtain ⟨ha, -⟩ := Prod.mk.inj hr
  exact h _ a _ (Prod.ext ha rfl)

/-- Values one behind the other, behind those that are there. -/
theorem always_repeatedOnto (h : Always P r) (n : Nat) (done : List α) (hdone : ∀ a ∈ done, P a) :
    Always (fun as => ∀ a ∈ as, P a) (repeatedOnto r n done) := by
  induction n generalizing done with
  | zero => exact always_pure fun a ha => hdone a (List.mem_reverse.1 ha)
  | succ n ih =>
    rw [repeatedOnto_succ]
    exact h.bind fun a ha => ih (a :: done) (List.forall_mem_cons.2 ⟨ha, hdone⟩)

end Reader

/-! ## 2. Positions -/

mutual

/-- The positions of the generic parameters in a type. The types behind a pointer to a function do
not count. -/
def SigType.positions : SigType → List Nat
  | .element _ => []
  | .pointer t => t.positions
  | .byRef t => t.positions
  | .pinned t => t.positions
  | .valueType _ => []
  | .classType _ => []
  | .typeVariable i => [i]
  | .methodVariable i => [i]
  | .array t _ => t.positions
  | .vector t => t.positions
  | .instantiation t ts => t.positions ++ positionsOfTypes ts
  | .functionPointer _ => []

/-- The positions of the generic parameters in a list of types. -/
def positionsOfTypes : List SigType → List Nat
  | [] => []
  | t :: ts => t.positions ++ positionsOfTypes ts

end

/-- All positions in the type are below the span of the packed form. -/
def SigType.Positioned (t : SigType) : Prop :=
  ∀ i ∈ t.positions, i < compressedSpan

/-- The positions in a list of types are those in its types. -/
theorem positioned_iff_of_types {ts : List SigType} :
    (∀ i ∈ positionsOfTypes ts, i < compressedSpan) ↔ ∀ t ∈ ts, t.Positioned := by
  induction ts with
  | nil => exact iff_of_true (List.forall_mem_nil _) (List.forall_mem_nil _)
  | cons t ts ih => rw [positionsOfTypes, List.forall_mem_append, ih, List.forall_mem_cons]; rfl

namespace Signature

/-! ## 3. Types and method signatures -/

/-- **The rest of a type has its positions from inner types**, or it is a generic parameter. -/
theorem always_typeBehind {type : Reader SigType} (h : Always SigType.Positioned type)
    (method : Reader SigMethod) (lead : UInt8) :
    Always SigType.Positioned (typeBehind type method lead) := by
  by_cases hlead : lead ∈ leads
  · simp only [leads, List.mem_cons, List.not_mem_nil, or_false] at hlead
    rcases hlead with rfl | rfl | rfl | rfl | rfl | rfl | rfl | rfl | rfl | rfl | rfl
    · exact always_bind fun _ => h.bind fun t ht => always_pure ht
    · exact h.bind fun t ht => always_pure ht
    · exact always_bind fun _ => always_pure (List.forall_mem_nil _)
    · exact always_bind fun _ => always_pure (List.forall_mem_nil _)
    · exact always_compressed.bind fun i hi => always_pure (List.forall_mem_singleton.2 hi)
    · exact h.bind fun t ht => always_bind fun _ => always_bind fun _ => always_bind fun _ =>
        always_bind fun _ => always_bind fun _ => always_pure ht
    · refine always_bind fun b => always_ite (h.bind fun t ht => always_bind fun n => ?_)
        (always_fail _)
      exact (always_repeatedOnto h n [] (List.forall_mem_nil _)).bind fun ts hts =>
        always_pure (List.forall_mem_append.2 ⟨ht, positioned_iff_of_types.2 hts⟩)
    · exact always_bind fun _ => always_pure (List.forall_mem_nil _)
    · exact always_bind fun _ => h.bind fun t ht => always_pure ht
    · exact always_compressed.bind fun i hi => always_pure (List.forall_mem_singleton.2 hi)
    · exact h.bind fun t ht => always_pure ht
  · rw [typeBehind_other hlead]
    refine always_ite (always_bind fun _ => always_bind fun _ => h) ?_
    cases Element.ofCode lead with
    | some e => exact always_pure (List.forall_mem_nil _)
    | none => exact always_fail _

/-- The induction is on the levels that may be opened. -/
theorem always_typeWithin (room : Nat) : Always SigType.Positioned (typeWithin room) := by
  induction room with
  | zero => exact always_bind fun _ => always_fail _
  | succ room ih =>
    exact Always.descend (always_bind fun lead => always_typeBehind ih (methodWithin room) lead)

/-- All positions in the type of the parameter are below the span of the packed form. -/
abbrev PositionedParam (p : SigParam) : Prop :=
  p.type.Positioned

theorem always_parameter {type : Reader SigType} (h : Always SigType.Positioned type) :
    Always PositionedParam (parameter type) := by
  refine always_bind fun _ => always_bind fun b => always_ite ?_ ?_
  · exact always_bind fun _ => h.bind fun t ht => always_pure ht
  · exact h.bind fun t ht => always_pure ht

theorem always_parametersOnto {P : SigParam → Prop} {param : Reader SigParam} (h : Always P param)
    (n : Nat) (fixed extra : List SigParam) (hfixed : ∀ p ∈ fixed, P p)
    (hextra : ∀ p ∈ extra, P p) :
    Always (fun out => ∀ p ∈ out.1 ++ out.2, P p) (parametersOnto param n fixed extra) := by
  induction n generalizing fixed extra with
  | zero =>
    refine always_pure (List.forall_mem_append.2 ⟨fun p hp => ?_, fun p hp => ?_⟩)
    · exact hfixed p (List.mem_reverse.1 hp)
    · exact hextra p (List.mem_reverse.1 hp)
  | succ n ih =>
    rw [parametersOnto_succ]
    refine always_bind fun b => always_ite ?_ ?_
    · exact always_bind fun _ => h.bind fun p hp =>
        ih fixed (p :: extra) hfixed (List.forall_mem_cons.2 ⟨hp, hextra⟩)
    · refine h.bind fun p hp => always_ite ?_ ?_
      · exact ih (p :: fixed) extra (List.forall_mem_cons.2 ⟨hp, hfixed⟩) hextra
      · exact ih fixed (p :: extra) hfixed (List.forall_mem_cons.2 ⟨hp, hextra⟩)

/-- All positions in the types of the method are below the span of the packed form. -/
abbrev PositionedMethod (m : SigMethod) : Prop :=
  PositionedParam m.result ∧ ∀ p ∈ m.arguments, PositionedParam p

theorem always_methodOver {type : Reader SigType} (h : Always SigType.Positioned type) :
    Always PositionedMethod (methodOver type) := by
  have hparam := always_parameter h
  have hmore : ∀ {f : SigParam → List SigParam × List SigParam → SigMethod},
      (∀ result out, (f result out).result = result ∧ (f result out).arguments = out.1 ++ out.2) →
      Always PositionedMethod (compressed >>= fun count => parameter type >>= fun result =>
        parameters (parameter type) count >>= fun out => pure (f result out)) := by
    intro f hf
    have hnone := List.forall_mem_nil PositionedParam
    refine always_bind fun count => hparam.bind fun result hresult =>
      (always_parametersOnto hparam count [] [] hnone hnone).bind fun out hout => always_pure ?_
    obtain ⟨hback, harguments⟩ := hf result out
    rw [PositionedMethod, hback, harguments]
    exact ⟨hresult, hout⟩
  refine always_bind fun lead => always_ite ?_ (always_fail _)
  by_cases hflag : (lead &&& 0x10 != 0) = true
  · simp only [if_pos hflag]
    exact always_bind fun _ => hmore fun _ _ => ⟨rfl, rfl⟩
  · simp only [if_neg hflag]
    exact hmore fun _ _ => ⟨rfl, rfl⟩

/-- **Every position that was read is below the span of the packed form.** -/
theorem positions_lt_of_decodeMethod {blob : ByteArray} {m : SigMethod}
    (h : decodeMethod blob = .ok m) : PositionedMethod m := by
  have hwithin : ∀ room, Always PositionedMethod (methodWithin room) := by
    intro room
    cases room with
    | zero => exact always_bind fun _ => always_fail _
    | succ room =>
      exact always_bind fun _ => (always_methodOver (always_typeWithin room)).bind fun m hm =>
        always_bind fun _ => always_pure hm
  rcases hrun : method (Cursor.ofBlock blob) with ⟨outcome, c'⟩
  rw [decodeMethod, hrun] at h
  obtain rfl : outcome = .ok m := h
  exact hwithin _ _ _ _ hrun

end Signature

end InteropTables
