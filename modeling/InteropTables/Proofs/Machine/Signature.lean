import InteropTables.Proofs.Machine.Parser
import InteropTables.Proofs.Signature.Chains

/-!
# Decoding signatures on a machine of words

The decoder of signatures, with the number of open levels as a number that is counted up and down
and must never be beyond the limit. The recursion is on fuel, and fuel that runs out is a trap: that
it does not run out is part of what is proved.

* `modifiers`, `parametersOnto`, `typeBehind`, `methodOver`: the parts of the decoder;
* `descend`, `opened`: one level more, refused at the limit, for a type and for a method signature;
* `tracks_within`: **with fuel for one level more than there is room for, types and method
  signatures are decoded as the library decodes them**;
* `decodeType_follows`, `decodeMethod_follows`: the same for whole blobs.
-/

namespace InteropTables

namespace Machine

variable {α : Type} {d : Nat}

/-! ## 1. Modifiers and parameters -/

/-- Skips modifiers until another byte stands in front, at most `fuel - 1` of them. -/
def modifiersWithin : (fuel : Nat) → Parse Unit
  | 0 => Parse.trap .endless
  | fuel + 1 => do
    let p ← Parse.get
    if p.position < p.data.size then do
      let b ← peek
      if Signature.isModifier b then do
        advance
        let _ ← token
        modifiersWithin fuel
      else return ()
    else return ()

/-- Skips all custom modifiers that stand here; each of them takes at least one byte. -/
def modifiers : Parse Unit := do
  let p ← Parse.get
  modifiersWithin (p.data.size - p.position + 1)

/-- A parameter: modifiers, perhaps the mark of a reference, and a type. -/
def parameter (type : Parse SigType) : Parse SigParam := do
  modifiers
  let b ← peek
  if b == Signature.byRefCode then
    advance
    return ⟨true, ← type⟩
  else
    return ⟨false, ← type⟩

/-- `n` parameters behind those already read (last one first). -/
def parametersOnto (param : Parse SigParam) :
    (n : Nat) → (fixed extra : List SigParam) → Parse (List SigParam × List SigParam)
  | 0, fixed, extra => pure (fixed.reverse, extra.reverse)
  | n + 1, fixed, extra => do
    let b ← peek
    if b == Signature.sentinelCode then do
      advance
      let p ← param
      parametersOnto param n fixed (p :: extra)
    else do
      let p ← param
      if extra.isEmpty then parametersOnto param n (p :: fixed) extra
      else parametersOnto param n fixed (p :: extra)

/-- With a byte in front the clock of the library is a step of the loop. -/
theorem modifiersWithin_cons {c : Cursor} {b : UInt8} {rest : List UInt8} (tick : UInt8)
    (clock : List UInt8) (h : c.rest = b :: rest) :
    Signature.modifiersWithin (tick :: clock) c
      = (if Signature.isModifier b then do
          Reader.skip
          let _ ← Reader.token
          Signature.modifiersWithin clock
        else pure () : Reader Unit) c := by
  have hlook : Reader.look c = (.ok (b :: rest), c) := by
    rw [Reader.look, h]
  rw [Signature.modifiersWithin_succ, Reader.bind_of_ok hlook]

/-- The loop ends: its fuel is more than the bytes behind the place. -/
theorem tracksAt_modifiersWithin (fuel : Nat) (clock : List UInt8) (p : Parser) (hp : p.Sound)
    (hfuel : p.data.size - p.position < fuel)
    (hclock : p.data.size - p.position ≤ clock.length) :
    TracksAt p (modifiersWithin fuel) (Signature.modifiersWithin clock) := by
  induction fuel generalizing clock p with
  | zero => omega
  | succ fuel ih =>
    rcases hp.cases with ⟨hend, hrest⟩ | ⟨b, rest, hlt, hrest, hbyte, _, _⟩
    · have hr : Signature.modifiersWithin clock p.cursor = (.ok (), p.cursor) := by
        cases clock with
        | nil => rfl
        | cons tick clock => simp only [Signature.modifiersWithin, hrest]
      refine ⟨p, ?_, by rw [hr], by rw [hr]; exact .refl hp _⟩
      rw [modifiersWithin, Parse.get_then, if_neg (by omega), hr]
      rfl
    · cases clock with
      | nil => exact absurd hclock (by simp only [List.length_nil]; omega)
      | cons tick clock =>
        rw [List.length_cons] at hclock
        have hx : modifiersWithin (fuel + 1) p = (if Signature.isModifier b then do
            advance
            let _ ← token
            modifiersWithin fuel
          else return ()) p := by
          have hpeek : peek p = .ok (.ok b, p) := by
            rw [peek, Parse.get_then, hbyte]
            rfl
          rw [modifiersWithin, Parse.get_then, if_pos hlt, Parse.bind_apply_ok hpeek]
        rw [TracksAt, hx, modifiersWithin_cons tick clock hrest]
        by_cases hb : Signature.isModifier b = true
        · rw [if_pos hb, if_pos hb]
          refine (tracks_advance p hp rfl).bind fun _ p' hskip hreached => ?_
          have hp' := hreached.sound hp
          refine (tracks_token p' hp' rfl).bind fun _ p'' _ hreached' => ?_
          have hnext : p'.position = p.position + 1 := by
            have hcursor : p.cursor = ⟨b :: rest, p.position, p.depth⟩ := by
              rw [← hrest]
              rfl
            rw [hcursor, Reader.skip_cons] at hskip
            exact congrArg (fun result => result.2.position) hskip.symm
          have hforward := hreached'.forward
          have hsize : p''.data.size = p.data.size := by rw [hreached'.data, hreached.data]
          exact ih clock p'' (hreached'.sound hp') (by omega) (by omega)
        · rw [if_neg hb, if_neg hb]
          exact tracks_pure () p hp rfl

theorem tracks_modifiers : Tracks d modifiers Signature.modifiers := by
  intro p hp hd
  have hlength : p.cursor.rest.length = p.data.size - p.position := by
    show ((Bytes.toList p.data).drop p.position).length = _
    rw [List.length_drop, Bytes.length_toList]
  exact tracksAt_modifiersWithin _ p.cursor.rest p hp (Nat.lt_succ_self _)
    (Nat.le_of_eq hlength.symm)

theorem tracks_parameter {x : Parse SigType} {r : Reader SigType} (h : Tracks d x r) :
    Tracks d (parameter x) (Signature.parameter r) := by
  refine tracks_modifiers.bind fun _ => tracks_peek.bind fun b => ?_
  by_cases hb : (b == Signature.byRefCode) = true
  · rw [if_pos hb, if_pos hb]
    exact tracks_advance.bind fun _ => h.map _
  · rw [if_neg hb, if_neg hb]
    exact h.map _

theorem tracks_parametersOnto {x : Parse SigParam} {r : Reader SigParam} (h : Tracks d x r)
    (n : Nat) (fixed extra : List SigParam) :
    Tracks d (parametersOnto x n fixed extra) (Signature.parametersOnto r n fixed extra) := by
  induction n generalizing fixed extra with
  | zero => exact tracks_pure (fixed.reverse, extra.reverse)
  | succ n ih =>
    rw [Signature.parametersOnto_succ]
    refine tracks_peek.bind fun b => ?_
    by_cases hb : (b == Signature.sentinelCode) = true
    · rw [if_pos hb, if_pos hb]
      exact tracks_advance.bind fun _ => h.bind fun p => ih fixed (p :: extra)
    · rw [if_neg hb, if_neg hb]
      refine h.bind fun p => ?_
      by_cases hextra : extra.isEmpty = true
      · rw [if_pos hextra, if_pos hextra]
        exact ih (p :: fixed) extra
      · rw [if_neg hextra, if_neg hextra]
        exact ih fixed (p :: extra)

/-! ## 2. Types and methods over their parts -/

/-- The rest of a type behind its first byte, given how to read inner types and signatures. -/
def typeBehind (type : Parse SigType) (method : Parse SigMethod) (lead : UInt8) : Parse SigType :=
  match lead with
  | 0x0F => do
    modifiers
    return .pointer (← type)
  | 0x10 => return .byRef (← type)
  | 0x11 => return .valueType (← token)
  | 0x12 => return .classType (← token)
  | 0x13 => return .typeVariable (← compressed)
  | 0x14 => do
    let element ← type
    let rank ← compressed
    let _ ← repeatedOnto compressed (← compressed) []
    let _ ← repeatedOnto compressed (← compressed) []
    return .array element rank
  | 0x15 => do
    let b ← peek
    if Signature.isNamed b then
      let base ← type
      let arguments ← repeatedOnto type (← compressed) []
      return .instantiation base arguments
    else
      Parse.fail (.malformed (.genericBase b))
  | 0x1B => return .functionPointer (← method)
  | 0x1D => do
    modifiers
    return .vector (← type)
  | 0x1E => return .methodVariable (← compressed)
  | 0x45 => return .pinned (← type)
  | lead =>
    if Signature.isModifier lead then do
      let _ ← token
      modifiers
      type
    else
      match Element.ofCode lead with
      | some e => return .element e
      | none => Parse.fail (.malformed (.elementType lead))

/-- A type, given how to read inner types and signatures. -/
def typeOver (type : Parse SigType) (method : Parse SigMethod) : Parse SigType := do
  typeBehind type method (← next)

/-- A method signature, given how to read the types in it. -/
def methodOver (type : Parse SigType) : Parse SigMethod := do
  let lead ← next
  let convention := lead.toNat % 16
  if Signature.isMethodConvention convention then
    let genericCount ← if lead &&& 0x10 != 0 then compressed else pure 0
    let count ← compressed
    let result ← parameter type
    let (params, varargs) ← parametersOnto (parameter type) count [] []
    return {
      hasThis := lead &&& 0x20 != 0
      explicitThis := lead &&& 0x40 != 0
      convention, genericCount, result, params, varargs }
  else
    Parse.fail (.malformed (.callingConvention lead))

section Over

variable {x : Parse SigType} {r : Reader SigType} {y : Parse SigMethod} {s : Reader SigMethod}

/-- Every other byte announces a modifier, or it is a whole type, or none. -/
theorem typeBehind_other {lead : UInt8} (h : lead ∉ Signature.leads) :
    typeBehind x y lead = (if Signature.isModifier lead then do
        let _ ← token
        modifiers
        x
      else
        match Element.ofCode lead with
        | some e => return .element e
        | none => Parse.fail (.malformed (.elementType lead))) := by
  simp only [Signature.leads, List.mem_cons, List.not_mem_nil, or_false, not_or] at h
  unfold typeBehind
  split <;> first | rfl | simp_all only [not_true_eq_false, false_and, and_false]

theorem tracks_typeBehind (htype : Tracks d x r) (hmethod : Tracks d y s) (lead : UInt8) :
    Tracks d (typeBehind x y lead) (Signature.typeBehind r s lead) := by
  have hnumbers := fun n => tracks_repeatedOnto (tracks_compressed (d := d)) n []
  by_cases h : lead ∈ Signature.leads
  · simp only [Signature.leads, List.mem_cons, List.not_mem_nil, or_false] at h
    rcases h with rfl | rfl | rfl | rfl | rfl | rfl | rfl | rfl | rfl | rfl | rfl
    · exact tracks_modifiers.bind fun _ => htype.map _
    · exact htype.map _
    · exact tracks_token.map _
    · exact tracks_token.map _
    · exact tracks_compressed.map _
    · exact htype.bind fun element => tracks_compressed.bind fun rank =>
        tracks_compressed.bind fun n => (hnumbers n).bind fun _ =>
          tracks_compressed.bind fun n => (hnumbers n).bind fun _ => tracks_pure _
    · refine tracks_peek.bind fun b => ?_
      by_cases hb : Signature.isNamed b = true
      · rw [if_pos hb, if_pos hb]
        exact htype.bind fun base => tracks_compressed.bind fun n =>
          (tracks_repeatedOnto htype n []).map _
      · rw [if_neg hb, if_neg hb]
        exact tracks_fail _
    · exact hmethod.map _
    · exact tracks_modifiers.bind fun _ => htype.map _
    · exact tracks_compressed.map _
    · exact htype.map _
  · rw [typeBehind_other h, Signature.typeBehind_other h]
    by_cases hmodifier : Signature.isModifier lead = true
    · rw [if_pos hmodifier, if_pos hmodifier]
      exact tracks_token.bind fun _ => tracks_modifiers.bind fun _ => htype
    · rw [if_neg hmodifier, if_neg hmodifier]
      cases Element.ofCode lead with
      | some e => exact tracks_pure _
      | none => exact tracks_fail _

theorem tracks_typeOver (htype : Tracks d x r) (hmethod : Tracks d y s) :
    Tracks d (typeOver x y) (Signature.typeOver r s) :=
  tracks_next.bind fun lead => tracks_typeBehind htype hmethod lead

theorem tracks_methodOver (htype : Tracks d x r) :
    Tracks d (methodOver x) (Signature.methodOver r) := by
  refine tracks_next.bind fun lead => ?_
  by_cases hconvention : Signature.isMethodConvention (lead.toNat % 16) = true
  · rw [if_pos hconvention, if_pos hconvention]
    have hparam := tracks_parameter htype
    by_cases hflag : (lead &&& 0x10 != 0) = true
    · simp only [if_pos hflag]
      exact tracks_compressed.bind fun genericCount => tracks_compressed.bind fun count =>
        hparam.bind fun result => (tracks_parametersOnto hparam count [] []).map _
    · simp only [if_neg hflag]
      exact (tracks_pure 0).bind fun genericCount => tracks_compressed.bind fun count =>
        hparam.bind fun result => (tracks_parametersOnto hparam count [] []).map _
  · rw [if_neg hconvention, if_neg hconvention]
    exact tracks_fail _

end Over

/-! ## 3. Nesting -/

/-- One level more, which must not be beyond the limit. -/
def deepen : Parse Unit := do
  let p ← Parse.get
  let depth ← Parse.lift (add 8 p.depth 1)
  Parse.lift (level Signature.nestingLimit depth)
  Parse.set { p with depth }

/-- One level less. -/
def rise : Parse Unit := do
  let p ← Parse.get
  let depth ← Parse.lift (sub p.depth 1)
  Parse.set { p with depth }

/-- A step one level deeper, unless that level is the limit. The level is left again whether the
step succeeds or fails. -/
def descend (x : Parse α) : Parse α := do
  deepen
  let p ← Parse.get
  if Signature.nestingLimit ≤ p.depth then
    Parse.fail (.nestingLimit Signature.nestingLimit)
  else do
    let outcome ← x.attempt
    rise
    Parse.of outcome

/-- A step one level deeper, unless that level is the limit. The level is left again when the step
succeeds. -/
def opened (x : Parse α) : Parse α := do
  deepen
  let p ← Parse.get
  if Signature.nestingLimit ≤ p.depth then
    Parse.fail (.nestingLimit Signature.nestingLimit)
  else do
    let a ← x
    rise
    return a

theorem deepen_apply {p : Parser} (h : p.depth < Signature.nestingLimit) :
    deepen p = .ok (.ok (), { p with depth := p.depth + 1 }) := by
  have hword : p.depth + 1 < wordCount 8 := by
    have hlimit : Signature.nestingLimit = 50 := rfl
    rw [wordCount_eight]
    omega
  rw [deepen, Parse.get_then, add_of_lt hword, Parse.lift_pure_then, level_of_le h]
  rfl

theorem rise_apply {p : Parser} (h : 1 ≤ p.depth) :
    rise p = .ok (.ok (), { p with depth := p.depth - 1 }) := by
  rw [rise, Parse.get_then, sub_of_le h]
  rfl

section Nesting

variable {x : Parse α} {r : Reader α}

/-- The level that is refused is left open. -/
theorem tracks_refused (h : d + 1 = Signature.nestingLimit) :
    Tracks d (descend x) Signature.refused ∧ Tracks d (opened x) Signature.refused := by
  constructor
  all_goals
    intro p hp hd
    have hlimit : p.depth < Signature.nestingLimit := by omega
    refine ⟨{ p with depth := p.depth + 1 }, ?_, rfl,
      ⟨rfl, Nat.le_refl _, hp.position, Nat.le_succ _, fun _ h => nomatch h⟩⟩
    have hrefused : Signature.nestingLimit ≤ p.depth + 1 := by omega
  · rw [descend, Parse.bind_apply_ok (deepen_apply hlimit), Parse.get_then, if_pos hrefused]
    rfl
  · rw [opened, Parse.bind_apply_ok (deepen_apply hlimit), Parse.get_then, if_pos hrefused]
    rfl

/-- One level deeper a step does what it does on that level. -/
theorem tracks_descend (h : d + 1 < Signature.nestingLimit) (hx : Tracks (d + 1) x r) :
    Tracks d (descend x) (Reader.descend r) := by
  intro p hp hd
  have hopen : ¬ Signature.nestingLimit ≤ p.depth + 1 := by omega
  have hdeepen := deepen_apply (p := p) (by omega)
  obtain ⟨p', hstep, hcursor, hreached⟩ :=
    hx { p with depth := p.depth + 1 } ⟨hp.size, hp.position⟩ (by rw [← hd])
  have hdeeper : p.depth + 1 ≤ p'.depth := hreached.deeper
  have hrise := rise_apply (p := p') (by omega)
  rcases hr : r { p.cursor with depth := p.cursor.depth + 1 } with ⟨outcome, c'⟩
  have hr' : r (Parser.cursor { p with depth := p.depth + 1 }) = (outcome, c') := hr
  rw [hr'] at hstep hcursor hreached
  obtain rfl : p'.cursor = c' := hcursor
  have hresult : Reader.descend r p.cursor
      = (outcome, { p'.cursor with depth := p'.cursor.depth - 1 }) := by
    rw [Reader.descend, hr]
  refine ⟨{ p' with depth := p'.depth - 1 }, ?_, by rw [hresult]; rfl, ?_⟩
  · have hattempt : x.attempt { p with depth := p.depth + 1 } = .ok (.ok outcome, p') := by
      rw [Parse.attempt, hstep]
    rw [descend, Parse.bind_apply_ok hdeepen, Parse.get_then, if_neg hopen,
      Parse.bind_apply_ok hattempt, Parse.bind_apply_ok hrise, hresult]
    rfl
  · rw [hresult]
    refine ⟨hreached.data, hreached.forward, hreached.position, Nat.le_sub_of_add_le hdeeper,
      fun a ha => ?_⟩
    have hsettled : p'.depth = p.depth + 1 := hreached.settled a ha
    exact congrArg (· - 1) hsettled

theorem tracks_opened (h : d + 1 < Signature.nestingLimit) (hx : Tracks (d + 1) x r) :
    Tracks d (opened x) (do
      Reader.deepen
      let a ← r
      Reader.rise
      return a) := by
  intro p hp hd
  have hopen : ¬ Signature.nestingLimit ≤ p.depth + 1 := by omega
  have hdeepen := deepen_apply (p := p) (by omega)
  have hresult :
      (Reader.deepen >>= fun _ => r >>= fun a => Reader.rise >>= fun _ => pure a) p.cursor
        = (r >>= fun a => Reader.rise >>= fun _ => pure a)
          (Parser.cursor { p with depth := p.depth + 1 }) := rfl
  have hrun : opened x p = (x >>= fun a => rise >>= fun _ => pure a)
      { p with depth := p.depth + 1 } := by
    rw [opened, Parse.bind_apply_ok hdeepen, Parse.get_then, if_neg hopen]
  obtain ⟨p', hstep, hcursor, hreached⟩ :=
    hx { p with depth := p.depth + 1 } ⟨hp.size, hp.position⟩ (by rw [← hd])
  have hdeeper : p.depth + 1 ≤ p'.depth := hreached.deeper
  have hrise := rise_apply (p := p') (by omega)
  rw [TracksAt, hresult, hrun]
  rcases hr : r (Parser.cursor { p with depth := p.depth + 1 }) with ⟨outcome, c'⟩
  rw [hr] at hstep hcursor hreached
  obtain rfl : p'.cursor = c' := hcursor
  cases outcome with
  | ok a =>
    have hsettled : p'.depth = p.depth + 1 := hreached.settled a rfl
    rw [Reader.bind_of_ok hr, Parse.bind_apply_ok hstep, Parse.bind_apply_ok hrise]
    exact ⟨{ p' with depth := p'.depth - 1 }, rfl, rfl, hreached.data, hreached.forward,
      hreached.position, Nat.le_sub_of_add_le hdeeper, fun _ _ => congrArg (· - 1) hsettled⟩
  | error e =>
    rw [Reader.bind_of_error hr, Parse.bind_apply_error hstep]
    exact ⟨p', rfl, rfl, hreached.data, hreached.forward, hreached.position,
      Nat.le_of_succ_le hdeeper, by
        intro _ h
        cases h⟩

end Nesting

mutual

/-- A type, with fuel for so many levels. -/
def typeWithin : (fuel : Nat) → Parse SigType
  | 0 => Parse.trap .endless
  | fuel + 1 => descend (typeOver (typeWithin fuel) (methodWithin fuel))

/-- A method signature, with fuel for so many levels. -/
def methodWithin : (fuel : Nat) → Parse SigMethod
  | 0 => Parse.trap .endless
  | fuel + 1 => opened (methodOver (typeWithin fuel))

end

/-- **Fuel for one level more than there is room for does not run out**, and types and method
signatures are decoded as the library decodes them. -/
theorem tracks_within (room fuel : Nat) (hfuel : room < fuel)
    (hroom : room < Signature.nestingLimit) :
    let d := Signature.nestingLimit - 1 - room
    Tracks d (typeWithin fuel) (Signature.typeWithin room) ∧
      Tracks d (methodWithin fuel) (Signature.methodWithin room) := by
  intro d
  cases fuel with
  | zero => exact absurd hfuel (Nat.not_lt_zero _)
  | succ fuel =>
    cases room with
    | zero =>
      have hlast : d + 1 = Signature.nestingLimit := rfl
      exact ⟨(tracks_refused hlast).1, (tracks_refused hlast).2⟩
    | succ room =>
      have hopen : d + 1 < Signature.nestingLimit := by omega
      have hinner : Signature.nestingLimit - 1 - room = d + 1 := by omega
      obtain ⟨htype, hmethod⟩ := tracks_within room fuel (by omega) (by omega)
      rw [hinner] at htype hmethod
      exact ⟨tracks_descend hopen (tracks_typeOver htype hmethod),
        tracks_opened hopen (tracks_methodOver htype)⟩

/-! ## 4. Whole blobs -/

/-- Fuel for all levels. -/
def levels : Nat :=
  Signature.nestingLimit

/-- The type that a blob starts with. -/
def decodeType (blob : ByteArray) : Run SigType :=
  (typeWithin levels).run blob

/-- The method signature that a blob starts with. -/
def decodeMethod (blob : ByteArray) : Run SigMethod :=
  (methodWithin levels).run blob

theorem Tracks.run {x : Parse α} {r : Reader α} {blob : ByteArray} (h : Tracks 0 x r)
    (hblob : blob.size < wordCount 4) :
    Follows Eq (x.run blob) (r (Cursor.ofBlock blob)).1 := by
  obtain ⟨p', hx, _, _⟩ := h { data := blob } (Parser.sound_ofBlock hblob) rfl
  rw [Parse.run, hx]
  exact follows_of _

variable {blob : ByteArray}

theorem decodeType_follows (hblob : blob.size < wordCount 4) :
    Follows Eq (decodeType blob) (Signature.decodeType blob) :=
  (tracks_within 49 levels (by decide) (by decide)).1.run hblob

theorem decodeMethod_follows (hblob : blob.size < wordCount 4) :
    Follows Eq (decodeMethod blob) (Signature.decodeMethod blob) :=
  (tracks_within 49 levels (by decide) (by decide)).2.run hblob

end Machine

end InteropTables
