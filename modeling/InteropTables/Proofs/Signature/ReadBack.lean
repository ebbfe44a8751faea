import InteropTables.Proofs.Signature.Code

/-!
# Signatures are read back from every form

Reading a signature from a form of it gives the signature, stops right behind the form and closes
all levels again, if the levels that are open already leave room for its nesting.

* `reads_modifiers`: a chain of modifiers is passed over, up to the first byte that is no modifier;
* `reads_parameters`: fixed parameters, the sentinel, and the parameters behind it;
* `reads_typeCode`, `reads_methodCode`: the induction on the form, with any room that holds its
  nesting;
* `signature_read_back`: **every form of a well-formed signature is read back**, for method
  signatures and for types.
-/

namespace InteropTables

open Reader

namespace Signature

variable {β : Type}

/-! ## 1. Modifiers -/

/-- The form goes on with a byte that is no modifier. -/
def StartsPlain (bytes : List UInt8) : Prop :=
  ∃ b tail, bytes = b :: tail ∧ isModifier b = false

/-- The induction is on the chain. The bytes left are one clock, the chain behind the first modifier
with what follows is another, shorter one; so the statement is about every clock that is long
enough. -/
theorem modifiersWithin_of_code {ms : List UInt8} (h : ModifiersCode ms) :
    ∀ (clock rest : List UInt8) (position depth : Nat), ms.length < clock.length →
      StartsPlain rest →
      modifiersWithin clock ⟨ms ++ rest, position, depth⟩
        = (.ok (), ⟨rest, position + ms.length, depth⟩) := by
  induction h with
  | nil =>
    rintro (_ | ⟨_, clock⟩) rest position depth hlen ⟨b, tail, rfl, hb⟩
    · exact absurd hlen (Nat.not_lt_zero _)
    · simp [modifiersWithin, hb]
  | @cons front behind first _ ih =>
    rintro (_ | ⟨_, clock⟩) rest position depth hlen hrest
    · exact absurd hlen (Nat.not_lt_zero _)
    cases first with
    | @mk b n bytes mark number tag =>
      obtain ⟨t, ht⟩ := reads_token_of_tag number tag
      have hbehind : behind.length < clock.length := by
        simp only [List.length_append, List.length_cons] at hlen
        omega
      have htoken := ht (behind ++ rest) (position + 1) depth
      rw [← List.append_assoc] at htoken
      have hmore := ih clock rest (position + 1 + bytes.length) depth hbehind hrest
      simp only [List.cons_append, modifiersWithin, mark, if_true, htoken, hmore,
        List.length_cons, List.length_append]
      congr 2
      omega

/-- **A chain of modifiers is passed over.** -/
theorem reads_modifiers {r : Reader β} {a : β} {ms bytes : List UInt8} (hms : ModifiersCode ms)
    (hplain : StartsPlain bytes) (hr : Reads r a bytes) :
    Reads (modifiers >>= fun _ => r) a (ms ++ bytes) := by
  intro rest position depth
  obtain ⟨b, tail, rfl, hb⟩ := hplain
  have hskip : modifiers ⟨ms ++ (b :: tail ++ rest), position, depth⟩
      = (.ok (), ⟨b :: tail ++ rest, position + ms.length, depth⟩) :=
    modifiersWithin_of_code hms _ _ position depth (by simp) ⟨b, tail ++ rest, rfl, hb⟩
  rw [List.append_assoc, bind_of_ok hskip, hr, List.length_append, Nat.add_assoc]

/-! ## 2. First bytes -/

theorem plain_of_element (e : Element) :
    isModifier e.code = false ∧ e.code ≠ byRefCode ∧ e.code ≠ sentinelCode := by
  cases e <;> decide

/-- What the first byte of a type tells: it is no modifier and no sentinel, and it is the mark of a
reference only if the type is one. -/
theorem TypeCode.start {t : SigType} {bytes : List UInt8} {n : Nat} (h : TypeCode t bytes n) :
    ∃ b tail, bytes = b :: tail ∧ isModifier b = false ∧ b ≠ sentinelCode ∧
      (isReference t = false → b ≠ byRefCode) ∧ (isGenericBase t = true → isNamed b = true) := by
  cases h with
  | element e =>
    obtain ⟨h₁, h₂, h₃⟩ := plain_of_element e
    exact ⟨_, _, rfl, h₁, h₃, fun _ => h₂, fun h => nomatch h⟩
  | byRef _ => exact ⟨_, _, rfl, by decide, by decide, (fun h => nomatch h), fun h => nomatch h⟩
  | valueType _ => exact ⟨_, _, rfl, by decide, by decide, fun _ => by decide, fun _ => by decide⟩
  | classType _ => exact ⟨_, _, rfl, by decide, by decide, fun _ => by decide, fun _ => by decide⟩
  | pointer _ _ | pinned _ | typeVariable _ | methodVariable _ | array _ _ _ _ | vector _ _
  | instantiation _ _ _ | functionPointer _ =>
    exact ⟨_, _, rfl, by decide, by decide, fun _ => by decide, fun h => nomatch h⟩

theorem TypeCode.startsPlain {t : SigType} {bytes : List UInt8} {n : Nat}
    (h : TypeCode t bytes n) : StartsPlain bytes := by
  obtain ⟨b, tail, hbytes, hb, _⟩ := h.start
  exact ⟨b, tail, hbytes, hb⟩

theorem isModifier_cases {b : UInt8} (h : isModifier b = true) : b = 0x1F ∨ b = 0x20 := by
  simpa [isModifier] using h

/-! ## 3. Parameters -/

/-- What a list of parameters needs of the form of each: it is read back, and no sentinel starts
it. -/
structure Opens (param : Reader SigParam) (p : SigParam) (bytes : List UInt8) : Prop where
  reads : Reads param p bytes
  start : ∃ b tail, bytes = b :: tail ∧ (b == sentinelCode) = false

/-- Once a parameter behind the sentinel is there, all that follow join it. -/
theorem reads_extra {param : Reader SigParam} {vs : List SigParam} {bytes : List UInt8}
    (h : ListCode (Opens param) vs bytes) (fixed : List SigParam) :
    ∀ extra : List SigParam, extra.isEmpty = false →
      Reads (parametersOnto param vs.length fixed extra) (fixed.reverse, extra.reverse ++ vs)
        bytes := by
  induction h with
  | nil =>
    intro extra _ rest position depth
    simp [parametersOnto]
  | @cons v vs front behind head _ ih =>
    intro extra hextra rest position depth
    obtain ⟨hreads, b, tail, rfl, hb⟩ := head
    have hread := hreads (behind ++ rest) position depth
    have hmore := ih (v :: extra) rfl rest (position + (b :: tail).length) depth
    simp only [List.reverse_cons, List.append_assoc, List.singleton_append] at hmore
    rw [List.cons_append] at hread
    rw [List.length_append, ← Nat.add_assoc, List.length_cons, List.append_assoc, List.cons_append]
    simp only [parametersOnto, hb, hread, hextra, Bool.false_eq_true, if_false, hmore]

/-- The parameters behind the sentinel, none or some. -/
theorem reads_varargs {param : Reader SigParam} {v : SigParam} {vs : List SigParam}
    {front behind : List UInt8} (head : Opens param v front)
    (tail : ListCode (Opens param) vs behind) (fixed : List SigParam) :
    Reads (parametersOnto param (v :: vs).length fixed []) (fixed.reverse, v :: vs)
      (sentinelCode :: (front ++ behind)) := by
  intro rest position depth
  have hread := head.reads (behind ++ rest) (position + 1) depth
  have hmore := reads_extra tail fixed [v] rfl rest (position + 1 + front.length) depth
  simp only [List.length_cons, List.cons_append, List.append_assoc, parametersOnto,
    beq_self_eq_true, if_true, hread, hmore, List.reverse_cons, List.reverse_nil, List.nil_append,
    List.length_append]
  congr 2
  omega

/-- **Fixed parameters are read one by one, whatever is read behind them.** -/
theorem reads_fixed {param : Reader SigParam} {ps vs : List SigParam} {front behind : List UInt8}
    {count : Nat} (h : ListCode (Opens param) ps front)
    (hbehind : ∀ fixed, Reads (parametersOnto param count fixed []) (fixed.reverse, vs) behind) :
    ∀ fixed : List SigParam,
      Reads (parametersOnto param (ps.length + count) fixed []) (fixed.reverse ++ ps, vs)
        (front ++ behind) := by
  induction h with
  | nil =>
    intro fixed
    simpa using hbehind fixed
  | @cons p ps front behind' head _ ih =>
    intro fixed rest position depth
    obtain ⟨hreads, b, tail, rfl, hb⟩ := head
    have hread := hreads (behind' ++ (behind ++ rest)) position depth
    have hmore := ih (p :: fixed) rest (position + (b :: tail).length) depth
    have hcount : (p :: ps).length + count = (ps.length + count) + 1 := by
      simp only [List.length_cons]
      omega
    simp only [List.reverse_cons, List.append_assoc, List.singleton_append] at hmore
    rw [List.cons_append] at hread
    rw [hcount, List.append_assoc, List.append_assoc, List.cons_append]
    simp only [parametersOnto, hb, hread, List.isEmpty_nil, Bool.false_eq_true, if_false, if_true,
      hmore, List.append_assoc, List.length_append]
    congr 2
    omega

/-! ## 4. Levels -/

/-- A type is read within a room if the bytes behind its first one are read within a level less. -/
theorem reads_typeWithin {t : SigType} {b : UInt8} {bytes : List UInt8} {n room : Nat}
    (hroom : n + 1 ≤ room)
    (h : ∀ room, n ≤ room →
      Reads (typeBehind (typeWithin room) (methodWithin room) b) t bytes) :
    Reads (typeWithin room) t (b :: bytes) := by
  obtain ⟨room, rfl⟩ : ∃ r, room = r + 1 := ⟨room - 1, by omega⟩
  exact reads_descend (reads_next_bind (h room (by omega)))

theorem reads_methodWithin {m : SigMethod} {bytes : List UInt8} {n room : Nat}
    (hroom : n + 1 ≤ room) (h : ∀ room, n ≤ room → Reads (methodOver (typeWithin room)) m bytes) :
    Reads (methodWithin room) m bytes := by
  obtain ⟨room, rfl⟩ : ∃ r, room = r + 1 := ⟨room - 1, by omega⟩
  exact reads_deepen_rise (h room (by omega))

/-- A chain of modifiers that reading a type meets. -/
theorem reads_modified {type : Reader SigType} {method : Reader SigMethod} {t : SigType} {b : UInt8}
    {bytes ms behind : List UInt8} {n : Nat} (hmark : isModifier b = true)
    (number : NumberCode n bytes) (tag : n % 4 ≠ 3) (hms : ModifiersCode ms)
    (hplain : StartsPlain behind) (h : Reads type t behind) :
    Reads (typeBehind type method b) t (bytes ++ (ms ++ behind)) := by
  obtain ⟨k, hk⟩ := reads_token_of_tag number tag
  have hread : Reads (token >>= fun _ => modifiers >>= fun _ => type) t (bytes ++ (ms ++ behind)) :=
    reads_bind hk (reads_modifiers hms hplain h)
  rcases isModifier_cases hmark with rfl | rfl
  · exact hread
  · exact hread

/-- A list of numbers that is read and not kept. -/
theorem reads_numbers {r : Reader β} {a : β} {front behind : List UInt8} (h : NumbersCode front)
    (hr : Reads r a behind) :
    Reads (compressed >>= fun n => repeated compressed n >>= fun _ => r) a (front ++ behind) := by
  cases h with
  | @mk ns count body length numbers =>
    have hbody := reads_repeated (numbers.mono fun _ _ => reads_compressed)
    rw [List.append_assoc]
    exact reads_bind (reads_compressed length) (reads_bind hbody hr)

theorem reads_array {type : Reader SigType} {method : Reader SigMethod} {t : SigType} {rank : Nat}
    {bs rs ss ls : List UInt8} (h : Reads type t bs) (hrank : NumberCode rank rs)
    (hsizes : NumbersCode ss) (hbounds : NumbersCode ls) :
    Reads (typeBehind type method 0x14) (.array t rank) (bs ++ (rs ++ (ss ++ ls))) := by
  have hend := reads_numbers hbounds (reads_pure (SigType.array t rank))
  rw [List.append_nil] at hend
  exact reads_bind h (reads_bind (reads_compressed hrank) (reads_numbers hsizes hend))

theorem reads_instantiation {type : Reader SigType} {method : Reader SigMethod} {t : SigType}
    {ts : List SigType} {bs cs as : List UInt8} {n : Nat} (hcode : TypeCode t bs n)
    (hbase : isGenericBase t = true) (h : Reads type t bs) (hcount : NumberCode ts.length cs)
    (harguments : ListCode (Reads type) ts as) :
    Reads (typeBehind type method 0x15) (.instantiation t ts) (bs ++ (cs ++ as)) := by
  obtain ⟨b, tail, rfl, _, _, _, hnamed⟩ := hcode.start
  rw [List.cons_append]
  refine reads_peek ?_
  rw [if_pos (hnamed hbase)]
  exact reads_bind h (reads_bind (reads_compressed hcount)
    (reads_map (SigType.instantiation t) (reads_repeated harguments)))

/-- The modifiers in front of a parameter do not start like a sentinel. -/
theorem ModifiersCode.start_ne_sentinel {ms bytes : List UInt8} (h : ModifiersCode ms)
    (hbytes : ∃ b tail, bytes = b :: tail ∧ (b == sentinelCode) = false) :
    ∃ b tail, ms ++ bytes = b :: tail ∧ (b == sentinelCode) = false := by
  cases h with
  | nil => exact hbytes
  | cons first _ =>
    cases first with
    | mk mark _ _ =>
      refine ⟨_, _, rfl, ?_⟩
      rcases isModifier_cases mark with rfl | rfl <;> rfl

/-- A parameter that is passed by value. -/
theorem opens_value {type : Reader SigType} {t : SigType} {ms bs : List UInt8} {n : Nat}
    (hms : ModifiersCode ms) (hcode : TypeCode t bs n) (hvalue : isReference t = false)
    (h : Reads type t bs) : Opens (parameter type) ⟨false, t⟩ (ms ++ bs) := by
  obtain ⟨b, tail, rfl, _, hsentinel, hreference, _⟩ := hcode.start
  refine ⟨reads_modifiers hms hcode.startsPlain (reads_peek ?_),
    hms.start_ne_sentinel ⟨b, tail, rfl, beq_eq_false_iff_ne.2 hsentinel⟩⟩
  have hb : (b == byRefCode) = false := beq_eq_false_iff_ne.2 (hreference hvalue)
  rw [if_neg (Bool.eq_false_iff.1 hb)]
  exact reads_map (SigParam.mk false) h

/-- A parameter that is passed by reference. -/
theorem opens_reference {type : Reader SigType} {t : SigType} {ms bs : List UInt8}
    (hms : ModifiersCode ms) (h : Reads type t bs) :
    Opens (parameter type) ⟨true, t⟩ (ms ++ byRefCode :: bs) := by
  have hread : Reads (skip >>= fun _ => type >>= fun t => pure (SigParam.mk true t)) ⟨true, t⟩
      (byRefCode :: bs) := reads_bind (reads_skip byRefCode) (reads_map (SigParam.mk true) h)
  exact ⟨reads_modifiers hms ⟨_, _, rfl, rfl⟩ (reads_peek hread),
    hms.start_ne_sentinel ⟨_, _, rfl, rfl⟩⟩

/-- The number of generic parameters, read or left out, and a step that goes on with it. -/
theorem reads_generic {f : Nat → Reader β} {a : β} {lead : UInt8} {n : Nat}
    {front behind : List UInt8} (h : GenericCode lead n front) (hf : Reads (f n) a behind) :
    Reads (if lead &&& 0x10 != 0 then compressed >>= f else pure 0 >>= f) a (front ++ behind) := by
  cases h with
  | counted flag number =>
    rw [if_pos flag]
    exact reads_bind (reads_compressed number) hf
  | none flag =>
    rw [if_neg (Bool.eq_false_iff.1 flag)]
    exact reads_bind (reads_pure 0) hf

/-- The parts of a method signature, one behind the other. -/
theorem reads_methodOver {type : Reader SigType} {lead : UInt8} {genericCount : Nat}
    {result : SigParam} {params varargs : List SigParam} {gs cs rs ps vs : List UInt8}
    (hconv : isMethodConvention (lead.toNat % 16) = true)
    (hgeneric : GenericCode lead genericCount gs)
    (hcount : NumberCode (params.length + varargs.length) cs)
    (hresult : Opens (parameter type) result rs)
    (hfixed : ListCode (Opens (parameter type)) params ps)
    (hextra : ∀ fixed, Reads (parametersOnto (parameter type) varargs.length fixed [])
      (fixed.reverse, varargs) vs) :
    Reads (methodOver type) ⟨lead &&& 0x20 != 0, lead &&& 0x40 != 0, lead.toNat % 16, genericCount,
      result, params, varargs⟩ (lead :: (gs ++ (cs ++ (rs ++ (ps ++ vs))))) := by
  refine reads_next_bind ?_
  rw [if_pos hconv]
  have hparams := reads_fixed hfixed hextra []
  exact reads_generic hgeneric (reads_bind (reads_compressed hcount)
    (reads_bind hresult.reads (reads_map _ hparams)))

/-! ## 5. The induction on the form -/

mutual

/-- **Every form of a well-formed type is read back** within any room that holds its nesting. -/
theorem reads_typeCode : ∀ {t : SigType} {bytes : List UInt8} {n : Nat}, TypeCode t bytes n →
    t.isWellFormed = true → ∀ room, n ≤ room → Reads (typeWithin room) t bytes
  | _, _, _, .element e, _, room, hroom =>
    reads_typeWithin (n := 0) hroom fun room _ => by
      cases e <;> exact reads_pure _
  | _, _, _, .pointer hms ht, hwf, room, hroom =>
    reads_typeWithin hroom fun room hroom =>
      reads_modifiers hms ht.startsPlain
        (reads_map SigType.pointer (reads_typeCode ht hwf room hroom))
  | _, _, _, .byRef ht, hwf, room, hroom =>
    reads_typeWithin hroom fun room hroom =>
      reads_map SigType.byRef (reads_innerCode ht hwf room hroom)
  | _, _, _, .pinned ht, hwf, room, hroom =>
    reads_typeWithin hroom fun room hroom =>
      reads_map SigType.pinned (reads_innerCode ht hwf room hroom)
  | _, _, _, .valueType hk, _, room, hroom =>
    reads_typeWithin (n := 0) hroom fun room _ => reads_map SigType.valueType (reads_token hk)
  | _, _, _, .classType hk, _, room, hroom =>
    reads_typeWithin (n := 0) hroom fun room _ => reads_map SigType.classType (reads_token hk)
  | _, _, _, .typeVariable hi, _, room, hroom =>
    reads_typeWithin (n := 0) hroom fun room _ =>
      reads_map SigType.typeVariable (reads_compressed hi)
  | _, _, _, .methodVariable hi, _, room, hroom =>
    reads_typeWithin (n := 0) hroom fun room _ =>
      reads_map SigType.methodVariable (reads_compressed hi)
  | _, _, _, .array ht hrank hsizes hbounds, hwf, room, hroom =>
    reads_typeWithin hroom fun room hroom => by
      simp only [SigType.isWellFormed, Bool.and_eq_true] at hwf
      exact reads_array (reads_innerCode ht hwf.1 room hroom) hrank hsizes hbounds
  | _, _, _, .vector hms ht, hwf, room, hroom =>
    reads_typeWithin hroom fun room hroom =>
      reads_modifiers hms ht.startsPlain
        (reads_map SigType.vector (reads_typeCode ht hwf room hroom))
  | _, _, _, .instantiation hbase hcount harguments, hwf, room, hroom =>
    reads_typeWithin hroom fun room hroom => by
      simp only [SigType.isWellFormed, Bool.and_eq_true] at hwf
      exact reads_instantiation hbase hwf.1.1.1 (reads_typeCode hbase hwf.1.1.2 room (by omega))
        hcount (reads_typesCode harguments hwf.2 room (by omega))
  | _, _, _, .functionPointer hm, hwf, room, hroom =>
    reads_typeWithin hroom fun room hroom =>
      reads_map SigType.functionPointer (reads_methodCode hm hwf room hroom)

theorem reads_innerCode : ∀ {t : SigType} {bytes : List UInt8} {n : Nat}, InnerCode t bytes n →
    t.isWellFormed = true → ∀ room, n ≤ room → Reads (typeWithin room) t bytes
  | _, _, _, .plain ht, hwf, room, hroom => reads_typeCode ht hwf room hroom
  | _, _, _, .modified (.mk hmark hnumber htag) hms ht, hwf, _, hroom =>
    reads_typeWithin hroom fun room hroom =>
      reads_modified hmark hnumber htag hms ht.startsPlain (reads_typeCode ht hwf room hroom)

theorem reads_typesCode : ∀ {ts : List SigType} {bytes : List UInt8} {n : Nat},
    TypesCode ts bytes n → areWellFormedTypes ts = true → ∀ room, n ≤ room →
      ListCode (Reads (typeWithin room)) ts bytes
  | _, _, _, .nil, _, _, _ => .nil
  | _, _, _, .cons ht hts, hwf, room, hroom => by
    simp only [areWellFormedTypes, Bool.and_eq_true] at hwf
    exact .cons (reads_innerCode ht hwf.1 room (by omega))
      (reads_typesCode hts hwf.2 room (by omega))

theorem opens_paramCode : ∀ {p : SigParam} {bytes : List UInt8} {n : Nat},
    ParamCode p bytes n → p.isWellFormed = true → ∀ room, n ≤ room →
      Opens (parameter (typeWithin room)) p bytes
  | _, _, _, .value hms ht, hwf, room, hroom => by
    simp only [SigParam.isWellFormed, Bool.false_or, Bool.and_eq_true, Bool.not_eq_true'] at hwf
    exact opens_value hms ht hwf.1 (reads_typeCode ht hwf.2 room hroom)
  | _, _, _, .reference hms ht, hwf, room, hroom => by
    simp only [SigParam.isWellFormed, Bool.true_or, Bool.true_and] at hwf
    exact opens_reference hms (reads_innerCode ht hwf room hroom)

theorem opens_paramsCode : ∀ {ps : List SigParam} {bytes : List UInt8} {n : Nat},
    ParamsCode ps bytes n → areWellFormedParams ps = true → ∀ room, n ≤ room →
      ListCode (Opens (parameter (typeWithin room))) ps bytes
  | _, _, _, .nil, _, _, _ => .nil
  | _, _, _, .cons hp hps, hwf, room, hroom => by
    simp only [areWellFormedParams, Bool.and_eq_true] at hwf
    exact .cons (opens_paramCode hp hwf.1 room (by omega))
      (opens_paramsCode hps hwf.2 room (by omega))

theorem reads_varargsCode : ∀ {ps : List SigParam} {bytes : List UInt8} {n : Nat},
    VarargsCode ps bytes n → areWellFormedParams ps = true → ∀ room, n ≤ room → ∀ fixed,
      Reads (parametersOnto (parameter (typeWithin room)) ps.length fixed [])
        (fixed.reverse, ps) bytes
  | _, _, _, .none, _, _, _, _ => by
    intro rest position depth
    rfl
  | _, _, _, .some hp hps, hwf, room, hroom, fixed => by
    simp only [areWellFormedParams, Bool.and_eq_true] at hwf
    exact reads_varargs (opens_paramCode hp hwf.1 room (by omega))
      (opens_paramsCode hps hwf.2 room (by omega)) fixed

/-- **Every form of a well-formed method signature is read back** within any room that holds its
nesting. -/
theorem reads_methodCode : ∀ {m : SigMethod} {bytes : List UInt8} {n : Nat},
    MethodCode m bytes n → m.isWellFormed = true → ∀ room, n ≤ room →
      Reads (methodWithin room) m bytes
  | _, _, _, .mk hgeneric hcount hresult hfixed hextra, hwf, room, hroom => by
    simp only [SigMethod.isWellFormed, Bool.and_eq_true, decide_eq_true_eq] at hwf
    obtain ⟨⟨⟨⟨⟨⟨_, hconv⟩, _⟩, _⟩, hresultWf⟩, hfixedWf⟩, hextraWf⟩ := hwf
    exact reads_methodWithin hroom fun room hroom =>
      reads_methodOver hconv hgeneric hcount (opens_paramCode hresult hresultWf room (by omega))
        (opens_paramsCode hfixed hfixedWf room (by omega))
        (reads_varargsCode hextra hextraWf room (by omega))

end

/-! ## 6. Whole signatures -/

/-- **Every form of a well-formed signature is read back.** Method signatures and types each have a
form; and wherever a form stands, at whatever depth leaves room for its nesting, reading gives the
signature, stops right behind the form and restores the depth. -/
theorem signature_read_back :
    (∀ m : SigMethod, m.isWellFormed = true → (∃ bytes n, MethodCode m bytes n) ∧
      ∀ bytes n, MethodCode m bytes n → ∀ rest position depth, depth + n < nestingLimit →
        method ⟨bytes ++ rest, position, depth⟩
          = (.ok m, ⟨rest, position + bytes.length, depth⟩)) ∧
    (∀ t : SigType, t.isWellFormed = true → (∃ bytes n, InnerCode t bytes n) ∧
      ∀ bytes n, InnerCode t bytes n → ∀ rest position depth, depth + n < nestingLimit →
        type ⟨bytes ++ rest, position, depth⟩
          = (.ok t, ⟨rest, position + bytes.length, depth⟩)) := by
  have hroom : ∀ {depth n : Nat}, depth + n < nestingLimit → n ≤ nestingLimit - 1 - depth := by
    intro depth n h
    omega
  constructor
  · intro m hwf
    refine ⟨⟨_, _, methodCode_code hwf⟩, fun bytes n hcode rest position depth hdepth => ?_⟩
    exact reads_methodCode hcode hwf _ (hroom hdepth) rest position depth
  · intro t hwf
    refine ⟨⟨_, _, .plain (typeCode_code hwf)⟩, fun bytes n hcode rest position depth hdepth => ?_⟩
    exact reads_innerCode hcode hwf _ (hroom hdepth) rest position depth

/-- An instance method with a modified result, a fixed reference to a modified number and, behind
the sentinel, a vector of modified texts. -/
theorem signature_read_back_vararg :
    let m : SigMethod := ⟨true, false, 5, 0, ⟨false, .element .void⟩,
      [⟨true, .element .int32⟩], [⟨false, .vector (.element .string)⟩]⟩
    m.isWellFormed = true ∧
      method ⟨[0x25, 0x02, 0x20, 0x05, 0x01, 0x10, 0x1F, 0x08, 0x08, 0x41, 0x1D, 0x20, 0x05, 0x0E]
        ++ [0xFF], 0, 0⟩ = (.ok m, ⟨[0xFF], 14, 0⟩) := by
  intro m
  have hmark : ModifierCode [0x20, 0x05] := .mk rfl (.one (n := 5) (by decide)) (by decide)
  have hmark' : ModifierCode [0x1F, 0x08] := .mk rfl (.one (n := 8) (by decide)) (by decide)
  have hresult : ParamCode ⟨false, .element .void⟩ [0x20, 0x05, 0x01] 1 :=
    .value (.cons hmark .nil) (.element .void)
  have hfixed : ParamCode ⟨true, .element .int32⟩ [0x10, 0x1F, 0x08, 0x08] 2 :=
    .reference .nil (.modified hmark' .nil (.element .int32))
  have hextra : ParamCode ⟨false, .vector (.element .string)⟩ [0x1D, 0x20, 0x05, 0x0E] 2 :=
    .value .nil (.vector (.cons hmark .nil) (.element .string))
  have hgeneric : GenericCode 0x25 0 [] := .none rfl
  have hcount : NumberCode (m.params.length + m.varargs.length) [0x02] := .one (by decide)
  have hcode : MethodCode m [0x25, 0x02, 0x20, 0x05, 0x01, 0x10, 0x1F, 0x08, 0x08, 0x41, 0x1D, 0x20,
      0x05, 0x0E] 3 :=
    .mk hgeneric hcount hresult (.cons hfixed .nil) (.some hextra .nil)
  exact ⟨rfl, (signature_read_back.1 m rfl).2 _ 3 hcode [0xFF] 0 0 (by decide)⟩

end Signature

end InteropTables
