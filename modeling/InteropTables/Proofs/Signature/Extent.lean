import InteropTables.Proofs.Assembly.Described
import InteropTables.Proofs.Signature.Exact

/-!
# How far a signature reaches

A signature that is read takes a stretch of bytes, and everything about it is bounded by them: what
follows does not matter, no front of them is enough, there are no more types in the result than
bytes, and the loops, whose numbers of rounds stand in the bytes themselves, pay for every round
with a byte. The levels that may be opened bound how deep the result is nested.

* `Fits`: no more parts than bytes, and no more levels than room;
* `exact_within`: **types and method signatures are exact, and what is read fits**;
* `signature_local`: **what is read before more bytes and before fewer**;
* `spends_parametersOnto`: the loop over parameters pays for its rounds in bytes;
* `exact_methodWithin`: what is read as a method signature has the layout of one;
* `signature_extent`: **the result is no larger than its bytes, and has the parameters that are
  announced.**
-/

namespace InteropTables

open Reader

/-! ## 1. Sizes of what is read -/

namespace Signature

/-- No more parts than bytes, and no more levels than room. -/
structure Fits {α : Type} (nodes nesting : α → Nat) (room : Nat) (a : α) (bytes : List UInt8) :
    Prop where
  nodes_le : nodes a ≤ bytes.length
  nesting_le : nesting a ≤ room

/-- A type fits. -/
abbrev FitsType : Nat → SigType → List UInt8 → Prop :=
  Fits SigType.nodes SigType.nesting

/-- A parameter fits. -/
abbrev FitsParam : Nat → SigParam → List UInt8 → Prop :=
  Fits SigParam.nodes SigParam.nesting

/-- A method signature fits. -/
abbrev FitsMethod : Nat → SigMethod → List UInt8 → Prop :=
  Fits SigMethod.nodes SigMethod.nesting

theorem nodes_pos (t : SigType) : 1 ≤ t.nodes := by
  cases t <;> simp [SigType.nodes]

theorem nesting_pos (t : SigType) : 1 ≤ t.nesting := by
  cases t <;> simp [SigType.nesting]

section Fits

variable {room : Nat} {t : SigType} {bytes : List UInt8}

theorem Fits.ne_nil (h : FitsType room t bytes) : bytes ≠ [] := by
  rintro rfl
  have hnodes := h.nodes_le
  have hpos := nodes_pos t
  rw [List.length_nil] at hnodes
  omega

/-- A type without parts fits wherever a byte stands. -/
theorem fits_leaf (hnodes : t.nodes = 1) (hnesting : t.nesting = 1) (lead : UInt8) :
    FitsType (room + 1) t (lead :: bytes) := by
  refine ⟨?_, ?_⟩
  · rw [hnodes, List.length_cons]
    omega
  · rw [hnesting]
    omega

/-- A type around another one fits with one byte and one level more. -/
theorem Fits.around (h : FitsType room t bytes) {whole : SigType} {lead : UInt8}
    {more : List UInt8} (hnodes : whole.nodes = t.nodes + 1)
    (hnesting : whole.nesting = t.nesting + 1) (hmore : bytes.length ≤ more.length) :
    FitsType (room + 1) whole (lead :: more) := by
  have hn := h.nodes_le
  have hl := h.nesting_le
  refine ⟨?_, by omega⟩
  rw [List.length_cons]
  omega

/-- Lists fit if their elements do; the measures of a list add up, or are the largest. -/
theorem fits_list {α : Type} {nodes nesting : α → Nat} {nodesOf nestingOf : List α → Nat}
    (hnil : nodesOf [] = 0 ∧ nestingOf [] = 0)
    (hcons : ∀ a as, nodesOf (a :: as) = nodes a + nodesOf as ∧
      nestingOf (a :: as) = max (nesting a) (nestingOf as))
    {as : List α} {bytes : List UInt8} (h : ListCode (Fits nodes nesting room) as bytes) :
    Fits nodesOf nestingOf room as bytes := by
  induction h with
  | nil => exact ⟨by rw [hnil.1]; exact Nat.zero_le _, by rw [hnil.2]; exact Nat.zero_le _⟩
  | @cons a as front behind head _ ih =>
    have hn := head.nodes_le
    have hl := head.nesting_le
    have hns := ih.nodes_le
    have hls := ih.nesting_le
    refine ⟨?_, ?_⟩
    · rw [(hcons a as).1, List.length_append]
      omega
    · rw [(hcons a as).2]
      omega

theorem fits_types {ts : List SigType} (h : ListCode (FitsType room) ts bytes) :
    Fits nodesOfTypes nestingOfTypes room ts bytes :=
  fits_list ⟨rfl, rfl⟩ (fun _ _ => ⟨rfl, rfl⟩) h

theorem fits_params {ps : List SigParam} (h : ListCode (FitsParam room) ps bytes) :
    Fits nodesOfParams nestingOfParams room ps bytes :=
  fits_list ⟨rfl, rfl⟩ (fun _ _ => ⟨rfl, rfl⟩) h

theorem fits_param {p : SigParam} (h : ParamLayout (FitsType room) p bytes) :
    FitsParam room p bytes := by
  cases h with
  | value _ type =>
    have hn := type.nodes_le
    refine ⟨?_, type.nesting_le⟩
    rw [SigParam.nodes, List.length_append]
    omega
  | reference _ type =>
    have hn := type.nodes_le
    refine ⟨?_, type.nesting_le⟩
    rw [SigParam.nodes, List.length_append, List.length_cons]
    omega

theorem fits_marked {p : SigParam} (h : MarkedLayout (ParamLayout (FitsType room)) p bytes) :
    FitsParam room p bytes := by
  cases h with
  | plain param => exact fits_param param
  | marked param =>
    have hfits := fits_param param
    refine ⟨?_, hfits.nesting_le⟩
    rw [List.length_cons]
    exact Nat.le_succ_of_le hfits.nodes_le

theorem fits_extra {ps : List SigParam} (h : ExtraLayout (ParamLayout (FitsType room)) ps bytes) :
    Fits nodesOfParams nestingOfParams room ps bytes := by
  cases h with
  | none => exact ⟨Nat.zero_le _, Nat.zero_le _⟩
  | @some p ps front behind head tail =>
    have hcode : ListCode (FitsParam room) (p :: ps) (front ++ behind) :=
      .cons (fits_param head) (tail.mono fun _ _ => fits_marked)
    have hfits := fits_params hcode
    refine ⟨?_, hfits.nesting_le⟩
    rw [List.length_cons]
    exact Nat.le_succ_of_le hfits.nodes_le

/-- A method signature fits with one level more than its types. -/
theorem fits_method {m : SigMethod} (h : MethodLayout (FitsType room) m bytes) :
    FitsMethod (room + 1) m bytes := by
  cases h with
  | mk generic count back fixed extra =>
    have hresult := fits_param back
    have hfixed := fits_params (fixed.mono fun _ _ => fits_param)
    have hextra := fits_extra extra
    have hn := hresult.nodes_le
    have hl := hresult.nesting_le
    have hns := hfixed.nodes_le
    have hls := hfixed.nesting_le
    have hvs := hextra.nodes_le
    have hkvs := hextra.nesting_le
    refine ⟨?_, ?_⟩
    · simp only [SigMethod.nodes, List.length_cons, List.length_append]
      omega
    · simp only [SigMethod.nesting]
      omega

end Fits

/-! ## 2. Whole signatures are exact -/

/-- The rest of a type behind its first byte. -/
theorem exact_typeBehind {room : Nat} {type : Reader SigType} {method : Reader SigMethod}
    (htype : Exact (FitsType room) type) (hmethod : Exact (FitsMethod room) method) (lead : UInt8) :
    Exact (fun t bytes => FitsType (room + 1) t (lead :: bytes)) (typeBehind type method lead) := by
  have hnumbers := fun n => exact_repeated exact_compressed n
  by_cases h : lead ∈ leads
  · simp only [leads, List.mem_cons, List.not_mem_nil, or_false] at h
    rcases h with rfl | rfl | rfl | rfl | rfl | rfl | rfl | rfl | rfl | rfl | rfl
    -- pointers and vectors have modifiers in front of their target
    · exact exact_modifiers fun ms _ => htype.bind fun t bytes ht =>
        exact_pure ⟨by simpa using ht.ne_nil, ht.around rfl rfl (by simp)⟩
    · exact htype.bind fun t bytes ht => exact_pure (ht.around rfl rfl (by simp))
    · exact exact_token.bind fun k bytes _ => exact_pure (fits_leaf rfl rfl _)
    · exact exact_token.bind fun k bytes _ => exact_pure (fits_leaf rfl rfl _)
    · exact exact_compressed.bind fun i bytes _ => exact_pure (fits_leaf rfl rfl _)
    · exact htype.bind fun t bytes ht => exact_compressed.bind fun rank _ _ =>
        exact_compressed.bind fun n _ _ => (hnumbers n).bind fun _ _ _ =>
          exact_compressed.bind fun k _ _ => (hnumbers k).bind fun _ _ _ =>
            exact_pure (ht.around rfl rfl (by simp))
    · refine exact_peek fun b => ?_
      by_cases hb : isNamed b = true
      · rw [if_pos hb]
        refine htype.bind fun t bytes ht => exact_compressed.bind fun n cs _ =>
          (exact_repeated htype n).bind fun ts rest hts => exact_pure ?_
        obtain ⟨first, tail, rfl⟩ := List.exists_cons_of_ne_nil ht.ne_nil
        have harguments := fits_types hts.2
        have hn := ht.nodes_le
        have hl := ht.nesting_le
        have hns := harguments.nodes_le
        have hls := harguments.nesting_le
        refine ⟨first, tail ++ (cs ++ (rest ++ [])), by simp, fun _ => ⟨?_, ?_⟩⟩
        · simp only [SigType.nodes, List.length_cons, List.length_append, List.length_nil]
          simp only [List.length_cons] at hn
          omega
        · simp only [SigType.nesting]
          omega
      · rw [if_neg hb]
        exact exact_fail _
    · refine hmethod.bind fun m bytes hm => exact_pure ⟨?_, ?_⟩
      · simp only [SigType.nodes, List.length_cons, List.length_append, List.length_nil]
        exact Nat.succ_le_succ hm.nodes_le
      · simp only [SigType.nesting]
        exact Nat.succ_le_succ hm.nesting_le
    · exact exact_modifiers fun ms _ => htype.bind fun t bytes ht =>
        exact_pure ⟨by simpa using ht.ne_nil, ht.around rfl rfl (by simp)⟩
    · exact exact_compressed.bind fun i bytes _ => exact_pure (fits_leaf rfl rfl _)
    · exact htype.bind fun t bytes ht => exact_pure (ht.around rfl rfl (by simp))
  · rw [typeBehind_other h]
    by_cases hmodifier : isModifier lead = true
    · rw [if_pos hmodifier]
      refine exact_token.bind fun k front _ => exact_modifiers fun ms _ =>
        htype.mono fun t bytes ht => ⟨ht.ne_nil, ?_, Nat.le_succ_of_le ht.nesting_le⟩
      have hn := ht.nodes_le
      simp only [List.length_cons, List.length_append]
      omega
    · rw [if_neg hmodifier]
      cases Element.ofCode lead with
      | some e => exact exact_pure (fits_leaf rfl rfl _)
      | none => exact exact_fail _

theorem exact_refused {α : Type} {Form : α → List UInt8 → Prop} :
    Exact Form (refused : Reader α) := by
  intro c a c' h
  cases h

/-- **Types and method signatures are exact, and what is read fits.** The induction is on the levels
that may be opened. -/
theorem exact_within (room : Nat) :
    Exact (FitsType room) (typeWithin room) ∧ Exact (FitsMethod room) (methodWithin room) := by
  induction room with
  | zero => exact ⟨exact_refused, exact_refused⟩
  | succ room ih =>
    have hmethod := exact_methodOver ih.1 fun _ _ ht => ht.ne_nil
    exact ⟨exact_descend (exact_next_bind fun lead => exact_typeBehind ih.1 ih.2 lead),
      exact_deepen_rise (hmethod.mono fun _ _ => fits_method)⟩

/-! ## 3. More bytes and fewer bytes -/

/-- **What stands behind a signature does not matter, and no front of it is a signature.** Where a
method signature or a type is read with `q` bytes used, it is read with `q` bytes used before any
bytes that follow; and any shorter front of them runs out of bytes, in no other way. -/
theorem signature_local :
    (∀ bytes position depth m c', method ⟨bytes, position, depth⟩ = (.ok m, c') →
      ∃ q ≤ bytes.length, c' = ⟨bytes.drop q, position + q, depth⟩ ∧
        (∀ more, method ⟨bytes ++ more, position, depth⟩
          = (.ok m, ⟨bytes.drop q ++ more, position + q, depth⟩)) ∧
        ∀ k < q, (method ⟨bytes.take k, position, depth⟩).1 = .error .outOfBounds) ∧
    (∀ bytes position depth t c', type ⟨bytes, position, depth⟩ = (.ok t, c') →
      ∃ q ≤ bytes.length, c' = ⟨bytes.drop q, position + q, depth⟩ ∧
        (∀ more, type ⟨bytes ++ more, position, depth⟩
          = (.ok t, ⟨bytes.drop q ++ more, position + q, depth⟩)) ∧
        ∀ k < q, (type ⟨bytes.take k, position, depth⟩).1 = .error .outOfBounds) := by
  -- the room depends on the depth alone, and this is the same in all three runs
  constructor
  · intro bytes position depth m c' h
    exact (exact_within (nestingLimit - 1 - depth)).2.extent h
  · intro bytes position depth t c' h
    exact (exact_within (nestingLimit - 1 - depth)).1.extent h

/-- A method with one vector of numbers, and a byte that is not part of it. -/
theorem signature_local_vector :
    method ⟨[0x00, 0x01, 0x01, 0x1D, 0x08, 0xFF], 0, 0⟩
      = (.ok ⟨false, false, 0, 0, ⟨false, .element .void⟩,
        [⟨false, .vector (.element .int32)⟩], []⟩, ⟨[0xFF], 5, 0⟩) ∧
    (method ⟨[0x00, 0x01, 0x01, 0x1D], 0, 0⟩).1 = .error .outOfBounds := by
  have hread : method ⟨[0x00, 0x01, 0x01, 0x1D, 0x08, 0xFF], 0, 0⟩
      = (.ok ⟨false, false, 0, 0, ⟨false, .element .void⟩,
        [⟨false, .vector (.element .int32)⟩], []⟩, ⟨[0xFF], 5, 0⟩) := rfl
  obtain ⟨q, _, hplace, _, hcut⟩ := signature_local.1 _ _ _ _ _ hread
  have hq : q = 5 := by
    have hposition := congrArg Cursor.position hplace
    exact (Nat.zero_add q).symm.trans hposition.symm
  subst hq
  exact ⟨hread, hcut 4 (by decide)⟩

/-! ## 4. Loops paid for in bytes -/

/-- Parameters, of which each uses a byte; the mark between them is one byte more. -/
theorem spends_parametersOnto {P : SigParam → List UInt8 → Prop} {param : Reader SigParam}
    (h : Exact P param) (hne : ∀ p bytes, P p bytes → bytes ≠ []) :
    Spends fun n (s : List SigParam × List SigParam) => parametersOnto param n s.1 s.2 := by
  refine .of_round fun s c => ?_
  obtain ⟨fixed, extra⟩ := s
  obtain ⟨rest, position, depth⟩ := c
  cases rest with
  | nil => exact .inl ⟨_, _, fun n => rfl⟩
  | cons b rest =>
    simp only [parametersOnto]
    by_cases hb : (b == sentinelCode) = true
    · simp only [if_pos hb]
      rcases hr : param ⟨rest, position + 1, depth⟩ with ⟨e | p, c'⟩
      · exact .inl ⟨e, c', fun n => rfl⟩
      · obtain ⟨hposition, hsize⟩ := h.spends hne hr
        simp only [Cursor.size, List.length_cons] at hposition hsize ⊢
        exact .inr ⟨(fixed, p :: extra), c', by omega, by omega, fun n => rfl⟩
    · simp only [if_neg hb]
      rcases hr : param ⟨b :: rest, position, depth⟩ with ⟨e | p, c'⟩
      · exact .inl ⟨e, c', fun n => rfl⟩
      · obtain ⟨hposition, hsize⟩ := h.spends hne hr
        by_cases hextra : extra.isEmpty = true
        · exact .inr ⟨(p :: fixed, extra), c', hposition, hsize, fun n => if_pos hextra⟩
        · exact .inr ⟨(fixed, p :: extra), c', hposition, hsize, fun n => if_neg hextra⟩

/-! ## 5. The extent of a signature -/

theorem takes_ne_nil {room : Nat} {t : SigType} {bytes : List UInt8}
    (h : Takes (typeWithin room) t bytes) : bytes ≠ [] :=
  ((exact_within room).1.of_reads h.reads).2.ne_nil

/-- A method signature that is read has the layout of one, and its types are what their bytes are
read as. -/
theorem exact_methodWithin (room : Nat) :
    Exact (MethodLayout (Takes (typeWithin (room - 1)))) (methodWithin room) := by
  cases room with
  | zero => exact exact_refused
  | succ room =>
    exact exact_deepen_rise (exact_methodOver (exact_within room).1.takes fun _ _ => takes_ne_nil)

/-- What fits its bytes has no more parts than the cursor has moved on. -/
theorem position_of_fits {α : Type} {nodes nesting : α → Nat} {room : Nat} {r : Reader α}
    (hexact : Exact (Fits nodes nesting room) r) {c c' : Cursor} {a : α} (h : r c = (.ok a, c')) :
    c.position + nodes a ≤ c'.position := by
  obtain ⟨bytes, _, hplace, _, hfits⟩ := hexact.place h
  rw [hplace]
  exact Nat.add_le_add_left hfits.nodes_le _

/-- **What is read is no larger than its bytes.**

A type has no more types in it than it has bytes, and nor has a method signature. A method signature
has as many parameters as its bytes announce, in the order of the bytes. Every round of a loop whose
number of rounds stands in the bytes uses a byte, or it ends the reading. And a method is described
with the parameters of its signature, one for one. -/
theorem signature_extent :
    (∀ c t c', type c = (.ok t, c') → c.position + t.nodes ≤ c'.position) ∧
    (∀ c m c', method c = (.ok m, c') → c.position + m.nodes ≤ c'.position ∧
      ∃ bytes, c.rest = bytes ++ c'.rest ∧
        MethodLayout (Takes (typeWithin (roomAt c - 1))) m bytes) ∧
    (∀ room, Spends (repeatedOnto compressed) ∧ Spends (repeatedOnto (typeWithin room)) ∧
      Spends fun n (s : List SigParam × List SigParam) =>
        parametersOnto (parameter (typeWithin room)) n s.1 s.2) ∧
    ∀ (a : Assembly) index d, a.methodDescriptor index = .ok d → ∃ m signature,
      a.methods[index]? = some m ∧ decodeMethod m.signature = .ok signature ∧
      List.Forall₂ (fun p t => a.describeParameter p = .ok t) signature.arguments d.parameters ∧
      d.parameters.length = signature.params.length + signature.varargs.length := by
  refine ⟨fun c t c' h => ?_, fun c m c' h => ⟨?_, ?_⟩, fun room => ⟨?_, ?_, ?_⟩,
    fun a index d h => ?_⟩
  · exact position_of_fits (exact_within (roomAt c)).1 h
  · exact position_of_fits (exact_within (roomAt c)).2 h
  · obtain ⟨bytes, hrest, _, hlayout⟩ := exact_methodWithin (roomAt c) c m c' h
    exact ⟨bytes, hrest, hlayout⟩
  · exact spends_repeatedOnto exact_compressed fun _ _ hnumber => hnumber.ne_nil
  · exact spends_repeatedOnto (exact_within room).1 fun _ _ hfits => hfits.ne_nil
  · have hparameter := exact_parameter (exact_within room).1 fun _ _ hfits => hfits.ne_nil
    exact spends_parametersOnto hparameter fun _ _ hp => hp.ne_nil fun _ _ hfits => hfits.ne_nil
  · obtain ⟨m, _, signature, hm, _, hsignature, _, _, hparameters⟩ :=
      Assembly.parts_of_methodDescriptor h
    refine ⟨m, signature, hm, hsignature, mapM_eq_ok_iff.1 hparameters, ?_⟩
    rw [length_of_mapM_ok hparameters]
    exact List.length_append

/-- A module with one method, which takes a text and, behind the sentinel, a vector of numbers. -/
def printer : Assembly where
  identity := "App"
  types := #[⟨⟨0x02000001⟩, .topLevel "App" "Printer", 0, [0]⟩]
  methods := #[⟨⟨0x06000001⟩, "Print", ⟨0⟩, 0, some 0,
    Bytes.ofList [0x05, 0x02, 0x01, 0x0E, 0x41, 0x1D, 0x08], none, #[]⟩]
  references := #[]
  specifications := #[]

/-- A signature with two types in five bytes, a vector in two; the method of the module is described
with two parameters. A list of types that is announced to be of any length above one ends with the
only byte there is. -/
theorem signature_extent_printer :
    let m : SigMethod := ⟨false, false, 5, 0, ⟨false, .element .void⟩, [],
      [⟨false, .element .int32⟩]⟩
    method ⟨[0x05, 0x01, 0x01, 0x41, 0x08], 0, 0⟩ = (.ok m, ⟨[], 5, 0⟩) ∧
      0 + m.nodes ≤ 5 ∧ 0 + (SigType.vector (.element .int32)).nodes ≤ 2 ∧
      printer.methodDescriptor 0 = .ok ⟨.topLevel "App" "Printer", "Print", .void,
        [.named (.topLevel systemSpace "String") false, .array (.primitive "Int32") 0], "App",
        ⟨0x06000001⟩⟩ ∧
      (∃ k signature, printer.methods[0]? = some k ∧ decodeMethod k.signature = .ok signature ∧
        2 = signature.params.length + signature.varargs.length) ∧
      ∃ e c', ∀ n, 1 < n → repeatedOnto (typeWithin 48) n [] ⟨[0x08], 0, 0⟩ = (.error e, c') := by
  intro m
  have hmethod : method ⟨[0x05, 0x01, 0x01, 0x41, 0x08], 0, 0⟩ = (.ok m, ⟨[], 5, 0⟩) := rfl
  have htype : type ⟨[0x1D, 0x08], 0, 0⟩ = (.ok (.vector (.element .int32)), ⟨[], 2, 0⟩) := rfl
  have hdescribed : printer.methodDescriptor 0 = .ok ⟨.topLevel "App" "Printer", "Print", .void,
      [.named (.topLevel systemSpace "String") false, .array (.primitive "Int32") 0], "App",
      ⟨0x06000001⟩⟩ := by decide +kernel
  obtain ⟨htypes, hmethods, hloops, hparameters⟩ := signature_extent
  obtain ⟨k, signature, hk, hsignature, -, hlength⟩ := hparameters printer 0 _ hdescribed
  exact ⟨hmethod, (hmethods _ _ _ hmethod).1, htypes _ _ _ htype, hdescribed,
    ⟨k, signature, hk, hsignature, hlength⟩, (hloops 48).2.1.beyond [] ⟨[0x08], 0, 0⟩⟩

end Signature

end InteropTables
