import Mathlib.Tactic.SplitIfs
import InteropTables.Signature.Decode

/-!
# The decoder of signatures as chains of steps

Some parts of the decoder look at the bytes in front of them themselves. Here they are equal to
chains of reading steps, so that what holds of single steps and passes on along chains holds of
them, and the bytes by which the decoder of types branches are listed.

* `Fault.IsLimit`: a failure of a limit of levels;
* `Reader.look`: the bytes still to read, left in place;
* `peek_eq`, `repeatedOnto_succ`, `modifiers_eq`, `modifiersWithin_succ`, `parametersOnto_succ`: the
  parts as chains;
* `leads`, `typeBehind_other`: **the bytes that start a type in a way of their own**, and what every
  other byte does;
* `Passes`, `Passes.methodOver`, `Passes.typeBehind`: **a relation that passes along chains holds of
  the decoder** if it holds of the inner types and signatures.
-/

namespace InteropTables

/-- The failure is that of a limit of levels. -/
def Fault.IsLimit (e : Fault) : Prop :=
  ∃ n, e = .nestingLimit n

theorem Fault.not_isLimit_malformed (cause : Malformation) : ¬ (malformed cause).IsLimit := by
  rintro ⟨n, h⟩
  cases h

theorem Fault.not_isLimit_outOfBounds : ¬ outOfBounds.IsLimit := by
  rintro ⟨n, h⟩
  cases h

namespace Reader

/-- The bytes still to read, left in place. -/
def look : Reader (List UInt8) :=
  fun c => (.ok c.rest, c)

theorem skip_cons (b : UInt8) (rest : List UInt8) (position depth : Nat) :
    skip ⟨b :: rest, position, depth⟩ = (.ok (), ⟨rest, position + 1, depth⟩) := rfl

theorem peek_cons (b : UInt8) (rest : List UInt8) (position depth : Nat) :
    peek ⟨b :: rest, position, depth⟩ = (.ok b, ⟨b :: rest, position, depth⟩) := rfl

theorem peek_eq : peek = look >>= fun rest =>
    match rest with
    | [] => fail .outOfBounds
    | b :: _ => pure b := by
  funext ⟨rest, position, depth⟩
  cases rest <;> rfl

/-- One more value. -/
theorem repeatedOnto_succ {α : Type} (r : Reader α) (n : Nat) (done : List α) :
    repeatedOnto r (n + 1) done = r >>= fun a => repeatedOnto r n (a :: done) := by
  funext c
  rw [bind_apply, repeatedOnto]

end Reader

namespace Signature

open Reader

/-! ## 1. Modifiers and parameters -/

theorem modifiers_eq : modifiers = look >>= modifiersWithin := rfl

/-- One more modifier, if there is one. -/
theorem modifiersWithin_succ (tick : UInt8) (clock : List UInt8) :
    modifiersWithin (tick :: clock) = look >>= fun rest =>
      match rest with
      | [] => pure ()
      | b :: _ =>
        if isModifier b then do
          skip
          let _ ← token
          modifiersWithin clock
        else pure () := by
  funext ⟨rest, position, depth⟩
  cases rest with
  | nil => rfl
  | cons b rest =>
    have hlook : look ⟨b :: rest, position, depth⟩
        = (.ok (b :: rest), ⟨b :: rest, position, depth⟩) := rfl
    rw [bind_of_ok hlook]
    simp only [modifiersWithin]
    by_cases hb : isModifier b = true
    · simp only [if_pos hb]
      rw [bind_of_ok (skip_cons b rest position depth), bind_apply]
      rcases token ⟨rest, position + 1, depth⟩ with ⟨_ | _, c'⟩ <;> rfl
    · simp only [if_neg hb]
      rfl

/-- One more parameter. -/
theorem parametersOnto_succ (param : Reader SigParam) (n : Nat) (fixed extra : List SigParam) :
    parametersOnto param (n + 1) fixed extra = (do
      let b ← peek
      if b == sentinelCode then do
        skip
        let p ← param
        parametersOnto param n fixed (p :: extra)
      else do
        let p ← param
        if extra.isEmpty then parametersOnto param n (p :: fixed) extra
        else parametersOnto param n fixed (p :: extra)) := by
  funext ⟨rest, position, depth⟩
  rw [parametersOnto]
  cases rest with
  | nil => rfl
  | cons b rest =>
    rw [bind_of_ok (peek_cons b rest position depth)]
    by_cases hb : (b == sentinelCode) = true
    · simp only [if_pos hb]
      rw [bind_of_ok (skip_cons b rest position depth), bind_apply]
      rcases param ⟨rest, position + 1, depth⟩ with ⟨_ | _, c'⟩ <;> rfl
    · simp only [if_neg hb]
      rw [bind_apply]
      rcases param ⟨b :: rest, position, depth⟩ with ⟨outcome, c'⟩
      cases outcome with
      | error e => rfl
      | ok p =>
        by_cases hextra : extra.isEmpty = true
        · simp only [if_pos hextra]
        · simp only [if_neg hextra]

/-! ## 2. First bytes of types -/

/-- The byte of a type that is a pointer to a function. -/
def functionCode : UInt8 := 0x1B

/-- The bytes that start a type in a way of their own. -/
def leads : List UInt8 :=
  [0x0F, 0x10, 0x11, 0x12, 0x13, 0x14, 0x15, 0x1B, 0x1D, 0x1E, 0x45]

/-- Every other byte announces a modifier, or it is a whole type, or none. -/
theorem typeBehind_other {type : Reader SigType} {method : Reader SigMethod} {lead : UInt8}
    (h : lead ∉ leads) :
    typeBehind type method lead = (if isModifier lead then do
        let _ ← token
        modifiers
        type
      else
        match Element.ofCode lead with
        | some e => return .element e
        | none => fail (.malformed (.elementType lead))) := by
  simp only [leads, List.mem_cons, List.not_mem_nil, or_false, not_or] at h
  unfold typeBehind
  split <;> first | rfl | simp_all only [not_true_eq_false, false_and, and_false]

/-! ## 3. What passes along chains -/

/-- A relation between steps that holds of single steps and passes along chains. A relation of a
step to itself is a property of steps. -/
structure Passes (R : {α : Type} → Reader α → Reader α → Prop) : Prop where
  pure : ∀ {α : Type} (a : α), R (pure a) (pure a)
  fail : ∀ {α : Type} {e : Fault}, ¬ e.IsLimit → R (fail e : Reader α) (fail e)
  look : R look look
  next : R next next
  bind : ∀ {α β : Type} {r r' : Reader α} {f f' : α → Reader β},
    R r r' → (∀ a, R (f a) (f' a)) → R (r >>= f) (r' >>= f')

namespace Passes

variable {α : Type} {R : {α : Type} → Reader α → Reader α → Prop} (h : Passes R)

include h

theorem skip : R skip skip :=
  h.bind h.next fun _ => h.pure ()

theorem peek : R peek peek := by
  rw [peek_eq]
  refine h.bind h.look fun rest => ?_
  cases rest with
  | nil => exact h.fail Fault.not_isLimit_outOfBounds
  | cons b _ => exact h.pure b

theorem compressed : R compressed compressed := by
  refine h.bind h.next fun lead => ?_
  split_ifs
  · exact h.pure _
  · exact h.bind h.next fun b => h.pure _
  · exact h.bind h.next fun b₁ => h.bind h.next fun b₂ => h.bind h.next fun b₃ => h.pure _
  · exact h.fail (Fault.not_isLimit_malformed _)

theorem token : R token token := by
  refine h.bind h.compressed fun n => ?_
  cases tokenBase (n % 4) with
  | some base => exact h.pure _
  | none => exact h.fail (Fault.not_isLimit_malformed _)

theorem repeatedOnto {r r' : Reader α} (hr : R r r') (n : Nat) (done : List α) :
    R (repeatedOnto r n done) (repeatedOnto r' n done) := by
  induction n generalizing done with
  | zero => exact h.pure _
  | succ n ih =>
    rw [repeatedOnto_succ, repeatedOnto_succ]
    exact h.bind hr fun a => ih (a :: done)

theorem modifiersWithin (clock : List UInt8) :
    R (modifiersWithin clock) (modifiersWithin clock) := by
  induction clock with
  | nil => exact h.pure ()
  | cons tick clock ih =>
    rw [modifiersWithin_succ]
    refine h.bind h.look fun rest => ?_
    cases rest with
    | nil => exact h.pure ()
    | cons b rest =>
      dsimp only
      split_ifs
      · exact h.bind h.skip fun _ => h.bind h.token fun _ => ih
      · exact h.pure ()

theorem modifiers : R modifiers modifiers := by
  rw [modifiers_eq]
  exact h.bind h.look h.modifiersWithin

theorem parameter {type type' : Reader SigType} (ht : R type type') :
    R (parameter type) (parameter type') := by
  refine h.bind h.modifiers fun _ => h.bind h.peek fun b => ?_
  split_ifs
  · exact h.bind h.skip fun _ => h.bind ht fun t => h.pure _
  · exact h.bind ht fun t => h.pure _

theorem parametersOnto {param param' : Reader SigParam} (hp : R param param') (n : Nat) :
    ∀ fixed extra,
      R (parametersOnto param n fixed extra) (parametersOnto param' n fixed extra) := by
  induction n with
  | zero => exact fun _ _ => h.pure _
  | succ n ih =>
    intro fixed extra
    rw [parametersOnto_succ, parametersOnto_succ]
    refine h.bind h.peek fun b => ?_
    split_ifs
    · exact h.bind h.skip fun _ => h.bind hp fun p => ih _ _
    · exact h.bind hp fun p => ih _ _
    · exact h.bind hp fun p => ih _ _

/-- What holds of types holds of the method signatures with these types. -/
theorem methodOver {type type' : Reader SigType} (ht : R type type') :
    R (methodOver type) (methodOver type') := by
  refine h.bind h.next fun lead => ?_
  have hp := h.parameter ht
  dsimp only
  split_ifs
  · exact h.bind h.compressed fun genericCount => h.bind h.compressed fun count =>
      h.bind hp fun result => h.bind (h.parametersOnto hp count [] []) fun out => h.pure _
  · exact h.bind (h.pure 0) fun genericCount => h.bind h.compressed fun count =>
      h.bind hp fun result => h.bind (h.parametersOnto hp count [] []) fun out => h.pure _
  · exact h.fail (Fault.not_isLimit_malformed _)

/-- **What holds of inner types and signatures holds of the rest of a type.** Method signatures
stand in pointers to functions only. -/
theorem typeBehind {type type' : Reader SigType} {method method' : Reader SigMethod}
    (ht : R type type') (lead : UInt8) (hm : lead = functionCode → R method method') :
    R (typeBehind type method lead) (typeBehind type' method' lead) := by
  have hnumbers := h.repeatedOnto h.compressed
  by_cases hlead : lead ∈ leads
  · simp only [leads, List.mem_cons, List.not_mem_nil, or_false] at hlead
    rcases hlead with rfl | rfl | rfl | rfl | rfl | rfl | rfl | rfl | rfl | rfl | rfl
    · exact h.bind h.modifiers fun _ => h.bind ht fun t => h.pure _
    · exact h.bind ht fun t => h.pure _
    · exact h.bind h.token fun k => h.pure _
    · exact h.bind h.token fun k => h.pure _
    · exact h.bind h.compressed fun i => h.pure _
    · exact h.bind ht fun t => h.bind h.compressed fun rank => h.bind h.compressed fun n =>
        h.bind (hnumbers n []) fun _ => h.bind h.compressed fun k =>
          h.bind (hnumbers k []) fun _ => h.pure _
    · refine h.bind h.peek fun b => ?_
      split_ifs
      · exact h.bind ht fun base => h.bind h.compressed fun n =>
          h.bind (h.repeatedOnto ht n []) fun ts => h.pure _
      · exact h.fail (Fault.not_isLimit_malformed _)
    · exact h.bind (hm rfl) fun m => h.pure _
    · exact h.bind h.modifiers fun _ => h.bind ht fun t => h.pure _
    · exact h.bind h.compressed fun i => h.pure _
    · exact h.bind ht fun t => h.pure _
  · rw [typeBehind_other hlead, typeBehind_other hlead]
    split_ifs
    · exact h.bind h.token fun _ => h.bind h.modifiers fun _ => ht
    · cases Element.ofCode lead with
      | some e => exact h.pure _
      | none => exact h.fail (Fault.not_isLimit_malformed _)

end Passes

end Signature

end InteropTables
