import Mathlib.Data.Nat.Find
import InteropTables.Proofs.Signature.Extent

/-!
# The levels that reading leaves open

A reader that goes on after a failure has the levels that the failure has left open, and they are
missing from what it may open next. Nothing stays open behind a success. A type that fails closes
its own level again, a method signature does not, and neither does a level beyond the limit.

* `Leaves`, `Levels`: how many levels are open behind a step;
* `levels_pass`, `levels_within`: **what types and method signatures leave open**;
* `depth_functionPointer`: a pointer to a function that fails;
* `Tight`, `tight_within`: with less room a step does the same, or it reports the limit;
* `Needs`, `exists_needs`: what is read needs a number of levels that does not depend on the place;
* `after`, `failures`, `depth_after`: calls of one reader, one behind the other;
* `depth_method`, `depth_type`: what one call leaves open;
* `levels_stay_open`: **what a reader still accepts behind the failures that it has reported.**
-/

namespace InteropTables

open Reader

namespace Signature

variable {α β : Type}

/-! ## 1. Levels behind one step -/

/-- The levels that are open behind an outcome, given those that were open in front of it. Behind a
failure other than that of the limit there are as many, or `leaks` holds. -/
inductive Leaves (leaks : Prop) (depth : Nat) : Except Fault α → Nat → Prop where
  | ok {a : α} {depth' : Nat} (closed : depth' = depth) : Leaves leaks depth (.ok a) depth'
  | limit {depth' : Nat} (more : depth < depth') :
      Leaves leaks depth (.error (.nestingLimit nestingLimit)) depth'
  | error {e : Fault} {depth' : Nat} (other : ¬ e.IsLimit) (more : depth ≤ depth')
      (closed : depth' = depth ∨ leaks) : Leaves leaks depth (.error e) depth'

/-- Wherever the step stands, it leaves open what is said by `leaks` and by the pointers to
functions among the bytes that it has used. -/
def Levels (leaks : Prop) (r : Reader α) : Prop :=
  ∀ c outcome c', r c = (outcome, c') →
    ∃ used, c.rest = used ++ c'.rest ∧ Leaves (functionCode ∈ used ∨ leaks) c.depth outcome c'.depth

section Leaves

variable {leaks leaks' : Prop} {depth depth' : Nat}

theorem Leaves.mono {outcome : Except Fault α} (h : Leaves leaks depth outcome depth')
    (himp : leaks → leaks') : Leaves leaks' depth outcome depth' := by
  cases h with
  | ok closed => exact .ok closed
  | limit more => exact .limit more
  | error other more closed => exact .error other more (closed.imp_right himp)

/-- A failure is passed on, whatever value was to be read. -/
theorem Leaves.of_error {e : Fault} (h : Leaves leaks depth (.error e : Except Fault α) depth') :
    Leaves leaks depth (.error e : Except Fault β) depth' := by
  cases h with
  | limit more => exact .limit more
  | error other more closed => exact .error other more closed

theorem Leaves.le {outcome : Except Fault α} (h : Leaves leaks depth outcome depth') :
    depth ≤ depth' := by
  cases h with
  | ok closed => exact Nat.le_of_eq closed.symm
  | limit more => exact Nat.le_of_lt more
  | error _ more _ => exact more

/-- A level that was opened in front of a step, and closed behind it whatever its outcome. -/
theorem Leaves.descend {outcome : Except Fault α} (h : Leaves leaks (depth + 1) outcome depth') :
    Leaves leaks depth outcome (depth' - 1) := by
  cases h with
  | ok closed => exact .ok (by omega)
  | limit more => exact .limit (by omega)
  | error other more closed =>
    exact .error other (by omega) (closed.imp_left fun h => by omega)

end Leaves

section Levels

variable {leaks leaks' : Prop} {r : Reader α}

theorem Levels.mono (h : Levels leaks r) (himp : leaks → leaks') : Levels leaks' r := by
  intro c outcome c' hr
  obtain ⟨used, hrest, hleaves⟩ := h c outcome c' hr
  exact ⟨used, hrest, hleaves.mono (Or.imp_right himp)⟩

/-- The next byte, and what is done with it. If it announces a pointer to a function, what follows
may leave levels open. -/
theorem levels_next_bind {f : UInt8 → Reader α} (h : ∀ b, Levels (b = functionCode ∨ leaks) (f b)) :
    Levels leaks (next >>= f) := by
  intro c outcome c' hr
  obtain ⟨rest, position, depth⟩ := c
  cases rest with
  | nil =>
    obtain ⟨rfl, rfl⟩ := Prod.mk.inj hr
    exact ⟨[], rfl, .error Fault.not_isLimit_outOfBounds (Nat.le_refl _) (.inl rfl)⟩
  | cons b rest =>
    obtain ⟨used, hrest, hleaves⟩ := h b ⟨rest, position + 1, depth⟩ outcome c' hr
    refine ⟨b :: used, congrArg (b :: ·) hrest, hleaves.mono ?_⟩
    rintro (hmem | rfl | hleaks)
    · exact .inl (List.mem_cons_of_mem _ hmem)
    · exact .inl (List.mem_cons_self ..)
    · exact .inr hleaks

theorem Levels.bind {f : α → Reader β} (hr : Levels leaks r) (hf : ∀ a, Levels leaks (f a)) :
    Levels leaks (r >>= f) := by
  intro c outcome c' h
  rw [bind_apply] at h
  rcases hrun : r c with ⟨e | a, c₁⟩
  · rw [hrun] at h
    obtain ⟨rfl, rfl⟩ := Prod.mk.inj h
    obtain ⟨used, hrest, hleaves⟩ := hr c _ _ hrun
    exact ⟨used, hrest, hleaves.of_error⟩
  · rw [hrun] at h
    obtain ⟨front, hfront, hclosed⟩ := hr c _ _ hrun
    obtain ⟨behind, hbehind, hleaves⟩ := hf a c₁ outcome c' h
    refine ⟨front ++ behind, by rw [hfront, hbehind, List.append_assoc], ?_⟩
    cases hclosed with
    | ok closed =>
      rw [closed] at hleaves
      exact hleaves.mono (Or.imp_left (List.mem_append_right _))

/-- **Single steps close what they open**, and a chain leaves open what a step of it does. -/
theorem levels_pass : Passes fun r _ => Levels leaks r where
  pure a := by
    intro c outcome c' h
    obtain ⟨rfl, rfl⟩ := Prod.mk.inj h
    exact ⟨[], rfl, .ok rfl⟩
  fail he := by
    intro c outcome c' h
    obtain ⟨rfl, rfl⟩ := Prod.mk.inj h
    exact ⟨[], rfl, .error he (Nat.le_refl _) (.inl rfl)⟩
  look := by
    intro c outcome c' h
    obtain ⟨rfl, rfl⟩ := Prod.mk.inj h
    exact ⟨[], rfl, .ok rfl⟩
  next := by
    intro c outcome c' h
    obtain ⟨rest, position, depth⟩ := c
    cases rest with
    | nil =>
      obtain ⟨rfl, rfl⟩ := Prod.mk.inj h
      exact ⟨[], rfl, .error Fault.not_isLimit_outOfBounds (Nat.le_refl _) (.inl rfl)⟩
    | cons b rest =>
      obtain ⟨rfl, rfl⟩ := Prod.mk.inj h
      exact ⟨[b], rfl, .ok rfl⟩
  bind hr hf := hr.bind hf

theorem levels_descend (h : Levels leaks r) : Levels leaks (descend r) := by
  intro c outcome c' hr
  rcases hrun : r { c with depth := c.depth + 1 } with ⟨result, c₁⟩
  rw [descend, hrun] at hr
  obtain ⟨rfl, rfl⟩ := Prod.mk.inj hr
  obtain ⟨used, hrest, hleaves⟩ := h _ result c₁ hrun
  exact ⟨used, hrest, hleaves.descend⟩

end Levels

/-! ## 2. Levels behind signatures -/

theorem levels_refused {leaks : Prop} : Levels leaks (refused : Reader α) := by
  intro c outcome c' h
  obtain ⟨rfl, rfl⟩ := Prod.mk.inj h
  exact ⟨[], rfl, .limit (Nat.lt_succ_self _)⟩

/-- A method signature closes its level behind a success only. -/
theorem leaves_methodWithin {room : Nat} (htype : Levels False (typeWithin room)) {c c' : Cursor}
    {outcome : Except Fault SigMethod} (h : methodWithin (room + 1) c = (outcome, c')) :
    ∃ used, c.rest = used ++ c'.rest ∧ Leaves True c.depth outcome c'.depth ∧
      ∀ e, outcome = .error e → c.depth < c'.depth := by
  have hdeepen : methodWithin (room + 1) c
      = (methodOver (typeWithin room) >>= fun m => rise >>= fun _ => pure m)
        { c with depth := c.depth + 1 } := rfl
  have hover : Levels False (methodOver (typeWithin room)) :=
    @Passes.methodOver _ levels_pass _ (typeWithin room) htype
  rw [hdeepen, bind_apply] at h
  rcases hrun : methodOver (typeWithin room) { c with depth := c.depth + 1 } with ⟨e | m, c₁⟩
  · rw [hrun] at h
    obtain ⟨rfl, rfl⟩ := Prod.mk.inj h
    obtain ⟨used, hrest, hleaves⟩ := hover _ _ _ hrun
    have hlt : c.depth < c₁.depth := hleaves.le
    refine ⟨used, hrest, ?_, fun _ _ => hlt⟩
    cases hleaves with
    | limit more => exact .limit hlt
    | error other more closed => exact .error other (Nat.le_of_lt hlt) (.inr trivial)
  · rw [hrun] at h
    obtain ⟨rfl, rfl⟩ := Prod.mk.inj h
    obtain ⟨used, hrest, hleaves⟩ := hover _ _ _ hrun
    refine ⟨used, hrest, ?_, ?_⟩
    · cases hleaves with
      | ok closed => exact .ok (by simp only [closed]; omega)
    · intro e he
      cases he

/-- **What signatures leave open.** Types close all but the levels of method signatures inside them
and the one that was refused; and a method signature that fails leaves at least its own level. The
induction is on the levels that may be opened. -/
theorem levels_within (room : Nat) :
    Levels False (typeWithin room) ∧ Levels True (methodWithin room) ∧
      ∀ c e c', methodWithin room c = (.error e, c') → c.depth < c'.depth := by
  induction room with
  | zero =>
    refine ⟨levels_refused, levels_refused, fun c e c' h => ?_⟩
    obtain ⟨-, rfl⟩ := Prod.mk.inj h
    exact Nat.lt_succ_self _
  | succ room ih =>
    obtain ⟨htype, hmethod, -⟩ := ih
    refine ⟨levels_descend (levels_next_bind fun lead => ?_), fun c outcome c' h => ?_,
      fun c e c' h => ?_⟩
    · exact @Passes.typeBehind _ levels_pass _ (typeWithin room) _ (methodWithin room)
        (htype.mono False.elim) lead fun hlead => hmethod.mono fun _ => .inl hlead
    · obtain ⟨used, hrest, hleaves, -⟩ := leaves_methodWithin htype h
      exact ⟨used, hrest, hleaves.mono .inr⟩
    · obtain ⟨_, _, _, hopen⟩ := leaves_methodWithin htype h
      exact hopen e rfl

/-- A pointer to a function that fails leaves open what its method signature does. -/
theorem depth_functionPointer {room : Nat} {c c' : Cursor} {e : Fault} {rest : List UInt8}
    (hrest : c.rest = functionCode :: rest) (h : typeWithin room c = (.error e, c')) :
    c.depth < c'.depth := by
  obtain ⟨bytes, position, depth⟩ := c
  obtain rfl : bytes = functionCode :: rest := hrest
  cases room with
  | zero =>
    obtain ⟨-, rfl⟩ := Prod.mk.inj h
    exact Nat.lt_succ_self _
  | succ room =>
    rcases hrun : typeOver (typeWithin room) (methodWithin room)
      ⟨functionCode :: rest, position, depth + 1⟩ with ⟨outcome, c₁⟩
    rw [typeWithin, descend, hrun] at h
    obtain ⟨rfl, rfl⟩ := Prod.mk.inj h
    have hbehind : (methodWithin room >>= fun m => pure (SigType.functionPointer m))
        ⟨rest, position + 1, depth + 1⟩ = (.error e, c₁) := hrun
    rw [bind_apply] at hbehind
    rcases hmethod : methodWithin room ⟨rest, position + 1, depth + 1⟩ with ⟨_ | m, c₂⟩
    · have hlt : depth + 1 < c₂.depth := (levels_within room).2.2 _ _ _ hmethod
      rw [hmethod] at hbehind
      obtain ⟨-, rfl⟩ := Prod.mk.inj hbehind
      exact Nat.lt_sub_of_add_lt hlt
    · rw [hmethod] at hbehind
      cases hbehind

/-! ## 3. More room and less room -/

/-- With less room a step does the same, or it reports the limit. -/
def Tight (r r' : Reader α) : Prop :=
  ∀ c, (r c).1 = .error (.nestingLimit nestingLimit) ∨ r c = r' c

section Tight

variable {r r' : Reader α}

theorem Tight.bind {f f' : α → Reader β} (hr : Tight r r') (hf : ∀ a, Tight (f a) (f' a)) :
    Tight (r >>= f) (r' >>= f') := by
  intro c
  rw [bind_apply, bind_apply]
  rcases hr c with hlimit | hsame
  · rcases hrun : r c with ⟨outcome, c₁⟩
    rw [hrun] at hlimit
    obtain rfl : outcome = _ := hlimit
    exact .inl rfl
  · rw [← hsame]
    rcases r c with ⟨e | a, c₁⟩
    · exact .inr rfl
    · exact hf a c₁

theorem tight_pass : Passes Tight where
  pure _ := fun _ => .inr rfl
  fail _ := fun _ => .inr rfl
  look := fun _ => .inr rfl
  next := fun _ => .inr rfl
  bind hr hf := hr.bind hf

theorem tight_descend (h : Tight r r') : Tight (descend r) (descend r') := by
  intro c
  rcases h { c with depth := c.depth + 1 } with hlimit | hsame
  · exact .inl hlimit
  · refine .inr ?_
    rw [descend, hsame]
    rfl

theorem tight_refused : Tight refused r :=
  fun _ => .inl rfl

end Tight

/-- **With less room signatures are read as with more, or the limit is reported.** -/
theorem tight_within {room room' : Nat} (h : room ≤ room') :
    Tight (typeWithin room) (typeWithin room') ∧
      Tight (methodWithin room) (methodWithin room') := by
  induction room generalizing room' with
  | zero => exact ⟨tight_refused, tight_refused⟩
  | succ room ih =>
    obtain ⟨room', rfl⟩ := Nat.exists_eq_succ_of_ne_zero (Nat.ne_zero_of_lt h)
    obtain ⟨ht, hm⟩ := ih (Nat.le_of_succ_le_succ h)
    refine ⟨tight_descend ?_, ?_⟩
    · exact tight_pass.bind tight_pass.next fun lead => tight_pass.typeBehind ht lead fun _ => hm
    · have hsame : ∀ {γ : Type} (r : Reader γ), Tight r r := fun _ _ => .inr rfl
      exact (hsame deepen).bind fun _ => (tight_pass.methodOver ht).bind fun m => hsame _

/-- With `n` levels left at the front of the bytes the value is read there, wherever they stand, and
reading ends as far behind as `c'` does; with fewer left the limit is reported. -/
structure Needs (r : Reader α) (bytes : List UInt8) (a : α) (c' : Cursor) (n : Nat) : Prop where
  reads : ∀ position depth, depth + n < nestingLimit →
    r ⟨bytes, position, depth⟩ = (.ok a, ⟨c'.rest, position + c'.position, depth⟩)
  refuses : ∀ position depth, nestingLimit ≤ depth + n →
    (r ⟨bytes, position, depth⟩).1 = .error (.nestingLimit nestingLimit)

/-- **What is read with all levels left needs a number of them**, no fewer than it is deep. -/
theorem exists_needs {nodes nesting : α → Nat} {within : Nat → Reader α}
    (hexact : ∀ room, Exact (Fits nodes nesting room) (within room))
    (htight : ∀ room room', room ≤ room' → Tight (within room) (within room'))
    (hnone : within 0 = refused) {bytes : List UInt8} {a : α} {c' : Cursor}
    (h : within (nestingLimit - 1) ⟨bytes, 0, 0⟩ = (.ok a, c')) :
    ∃ n, nesting a ≤ n ∧ 1 ≤ n ∧ n < nestingLimit ∧
      Needs (fun c => within (roomAt c) c) bytes a c' n := by
  classical
  obtain ⟨used, hrest, hplace, htakes, _⟩ := (hexact _).place h
  have hused : c'.position = used.length := by
    rw [hplace]
    exact Nat.zero_add _
  obtain rfl : bytes = used ++ c'.rest := hrest
  -- the least room in which exactly these bytes are read
  have hexists : ∃ room, Reads (within room) a used := ⟨_, htakes.reads⟩
  obtain ⟨n, hn⟩ : ∃ n, n = Nat.find hexists := ⟨_, rfl⟩
  have hreads : Reads (within n) a used := hn ▸ Nat.find_spec hexists
  have hleast : ∀ room < n, ¬ Reads (within room) a used := fun room hroom =>
    Nat.find_min hexists (hn ▸ hroom)
  have hle : n ≤ nestingLimit - 1 := hn ▸ Nat.find_min' hexists htakes.reads
  have hpos : 1 ≤ n := by
    refine Nat.one_le_iff_ne_zero.2 fun hzero => ?_
    have hrefused := hreads [] 0 0
    rw [hzero, hnone] at hrefused
    cases hrefused
  refine ⟨n, ((hexact n).of_reads hreads).2.nesting_le, hpos, Nat.lt_of_le_pred (by decide) hle,
    fun position depth hdepth => ?_, fun position depth hdepth => ?_⟩
  · have hroom : n ≤ nestingLimit - 1 - depth := by omega
    have hread := hreads c'.rest position depth
    rcases htight _ _ hroom ⟨used ++ c'.rest, position, depth⟩ with hlimit | hsame
    · rw [hread] at hlimit
      cases hlimit
    · rw [hread] at hsame
      rw [hused]
      exact hsame.symm
  · have hroom : nestingLimit - 1 - depth < n := by omega
    rcases htight _ (nestingLimit - 1) (Nat.sub_le _ _) ⟨used ++ c'.rest, position, depth⟩ with
      hlimit | hsame
    · exact hlimit
    · rw [htakes.reads] at hsame
      obtain ⟨used', hrest', htakes', _⟩ := hexact _ _ _ _ hsame
      obtain rfl : used = used' := List.append_cancel_right hrest'
      exact absurd htakes'.reads (hleast _ hroom)

/-! ## 4. Calls of one reader -/

/-- What a reader is asked for. -/
inductive Call where
  | method
  | type
deriving DecidableEq, Repr

/-- The cursor behind calls of one reader, one behind the other. -/
def after : List Call → Cursor → Cursor
  | [], c => c
  | .method :: calls, c => after calls (method c).2
  | .type :: calls, c => after calls (type c).2

/-- How many of the calls are for a method signature and fail. -/
def failures : List Call → Cursor → Nat
  | [], _ => 0
  | .method :: calls, c => (if (method c).1.isOk then 0 else 1) + failures calls (method c).2
  | .type :: calls, c => failures calls (type c).2

/-- A call for a method signature leaves a level open exactly if it fails. -/
theorem depth_method (c : Cursor) :
    ((method c).2.depth = c.depth ↔ (method c).1.isOk = true) ∧
      c.depth + (if (method c).1.isOk then 0 else 1) ≤ (method c).2.depth := by
  obtain ⟨-, hlevels, hopen⟩ := levels_within (roomAt c)
  rcases h : method c with ⟨e | m, c'⟩
  · have hlt := hopen c e c' h
    exact ⟨iff_of_false (Nat.ne_of_gt hlt) Bool.false_ne_true, hlt⟩
  · obtain ⟨_, _, hleaves⟩ := hlevels c _ c' h
    cases hleaves with
    | ok closed => exact ⟨iff_of_true closed rfl, Nat.le_of_eq closed.symm⟩

/-- **Every failure to read a method signature leaves a level open**, and no call closes it. The
induction is on the calls. -/
theorem depth_after (calls : List Call) (c : Cursor) :
    c.depth + failures calls c ≤ (after calls c).depth := by
  induction calls generalizing c with
  | nil => exact Nat.le_refl _
  | cons call calls ih =>
    cases call with
    | method =>
      have hcall := (depth_method c).2
      have hmore := ih (method c).2
      rw [failures, after]
      omega
    | type =>
      obtain ⟨_, _, hleaves⟩ := (levels_within (roomAt c)).1 c _ _ rfl
      exact Nat.le_trans (Nat.add_le_add_right hleaves.le _) (ih (type c).2)

/-- What a type leaves open. -/
theorem depth_type {c c' : Cursor} {outcome : Except Fault SigType} (h : type c = (outcome, c')) :
    (∀ t, outcome = .ok t → c'.depth = c.depth) ∧
    ∀ e, outcome = .error e → c.depth ≤ c'.depth ∧
      (∀ n, e = .nestingLimit n → n = nestingLimit ∧ c.depth < c'.depth) ∧
      (∀ rest, c.rest = functionCode :: rest → c.depth < c'.depth) ∧
      (¬ e.IsLimit → ∀ used, c.rest = used ++ c'.rest → functionCode ∉ used →
        c'.depth = c.depth) := by
  obtain ⟨front, hfront, hleaves⟩ := (levels_within (roomAt c)).1 c _ c' h
  have hle := hleaves.le
  cases hleaves with
  | ok closed => exact ⟨fun _ _ => closed, fun e he => by cases he⟩
  | limit more =>
    refine ⟨fun t ht => ?_, fun e he => ?_⟩
    · cases ht
    obtain rfl := Except.error.inj he
    exact ⟨hle, fun n hn => ⟨(Fault.nestingLimit.inj hn).symm, more⟩, fun _ _ => more,
      fun hother => absurd ⟨_, rfl⟩ hother⟩
  | error other _ closed =>
    refine ⟨fun t ht => ?_, fun e he => ?_⟩
    · cases ht
    obtain rfl := Except.error.inj he
    refine ⟨hle, fun n hn => absurd ⟨n, hn⟩ other, fun rest hrest => depth_functionPointer hrest h,
      fun _ used hused hmem => ?_⟩
    obtain rfl : front = used := List.append_cancel_right (hfront.symm.trans hused)
    exact closed.resolve_right fun hleaks => hleaks.elim hmem id

/-- **What a reader still accepts behind the failures that it has reported.**

A call for a method signature leaves no level open exactly if it succeeds. A call for a type leaves
none open if it succeeds. If it reports the limit it leaves one open, and so does a pointer to a
function if it fails; behind any other failure there is none without a pointer to a function among
the bytes that were used. Each signature that a fresh reader would accept needs a number of levels:
a reader accepts it where these are left, and reports the limit where they are not. And behind as
many failures as there are levels below the limit, a reader accepts nothing any more. -/
theorem levels_stay_open (c : Cursor) :
    ((method c).2.depth = c.depth ↔ (method c).1.isOk = true) ∧
    (∀ t c', type c = (.ok t, c') → c'.depth = c.depth) ∧
    (∀ e c', type c = (.error e, c') → c.depth ≤ c'.depth ∧
      (∀ n, e = .nestingLimit n → n = nestingLimit ∧ c.depth < c'.depth) ∧
      (∀ rest, c.rest = functionCode :: rest → c.depth < c'.depth) ∧
      (¬ e.IsLimit → ∀ used, c.rest = used ++ c'.rest → functionCode ∉ used →
        c'.depth = c.depth)) ∧
    (∀ m c', method ⟨c.rest, 0, 0⟩ = (.ok m, c') →
      ∃ n, m.nesting ≤ n ∧ 1 ≤ n ∧ n < nestingLimit ∧ Needs method c.rest m c' n) ∧
    (∀ t c', type ⟨c.rest, 0, 0⟩ = (.ok t, c') →
      ∃ n, t.nesting ≤ n ∧ 1 ≤ n ∧ n < nestingLimit ∧ Needs type c.rest t c' n) ∧
    ∀ calls, c.depth + failures calls c ≤ (after calls c).depth ∧
      (nestingLimit ≤ c.depth + failures calls c + 1 →
        (method (after calls c)).1 = .error (.nestingLimit nestingLimit) ∧
        (type (after calls c)).1 = .error (.nestingLimit nestingLimit)) := by
  refine ⟨(depth_method c).1, fun t c' h => (depth_type h).1 t rfl,
    fun e c' h => (depth_type h).2 e rfl, fun m c' h => ?_, fun t c' h => ?_,
    fun calls => ⟨depth_after calls c, fun h => ?_⟩⟩
  · exact exists_needs (fun room => (exact_within room).2) (fun _ _ hle => (tight_within hle).2)
      rfl h
  · exact exists_needs (fun room => (exact_within room).1) (fun _ _ hle => (tight_within hle).1)
      rfl h
  · have hdepth := depth_after calls c
    have hroom : roomAt (after calls c) = 0 := by
      rw [roomAt]
      omega
    rw [method, type, hroom]
    exact ⟨rfl, rfl⟩

/-- A pointer to no type closes its levels, a signature of a field leaves one open; a method without
parameters is read closed from some number of levels on, and not at all behind 49 such
signatures. -/
theorem levels_stay_open_void :
    let m : SigMethod := ⟨false, false, 0, 0, ⟨false, .element .void⟩, [], []⟩
    (type ⟨[0x0F, 0x17], 0, 3⟩).2.depth = 3 ∧
      (method ⟨[0x06], 0, 0⟩).2.depth ≠ 0 ∧
      (method ⟨[0x00, 0x00, 0x01], 0, 0⟩).2.depth = 0 ∧
      (∃ n, m.nesting ≤ n ∧ 1 ≤ n ∧ n < nestingLimit ∧
        Needs method [0x00, 0x00, 0x01] m ⟨[], 3, 0⟩ n) ∧
      (method (after (List.replicate 49 .method)
        ⟨List.replicate 49 0x06 ++ [0x00, 0x00, 0x01], 0, 0⟩)).1
          = .error (.nestingLimit nestingLimit) := by
  intro m
  have hpointer : type ⟨[0x0F, 0x17], 0, 3⟩
      = (.error (.malformed (.elementType 0x17)), ⟨[], 2, 3⟩) := rfl
  have hfield : (method ⟨[0x06], 0, 0⟩).1.isOk = false := rfl
  have hvoid : method ⟨[0x00, 0x00, 0x01], 0, 0⟩ = (.ok m, ⟨[], 3, 0⟩) := rfl
  obtain ⟨-, -, htype, -⟩ := levels_stay_open ⟨[0x0F, 0x17], 0, 3⟩
  have hkept := (htype _ _ hpointer).2.2.2 (Fault.not_isLimit_malformed _) [0x0F, 0x17] rfl
    (by decide)
  obtain ⟨hopen, -⟩ := levels_stay_open ⟨[0x06], 0, 0⟩
  obtain ⟨hclosed, -, -, hneeds, -⟩ := levels_stay_open ⟨[0x00, 0x00, 0x01], 0, 0⟩
  obtain ⟨-, -, -, -, -, hcalls⟩ :=
    levels_stay_open ⟨List.replicate 49 0x06 ++ [0x00, 0x00, 0x01], 0, 0⟩
  have hfailures : failures (List.replicate 49 .method)
      ⟨List.replicate 49 0x06 ++ [0x00, 0x00, 0x01], 0, 0⟩ = 49 := by decide +kernel
  refine ⟨(congrArg (·.2.depth) hpointer).trans hkept, fun h => ?_, hclosed.2 rfl, hneeds _ _ hvoid,
    ((hcalls _).2 ?_).1⟩
  · exact Bool.false_ne_true (hfield.symm.trans (hopen.1 h))
  · rw [hfailures]
    decide

/-- **A level stays open behind a failure.** After 49 signatures of fields a reader stands in front
of a method signature that it would accept if it were fresh, and refuses it. -/
theorem field_leaves_level_open :
    (method ⟨[0x06], 0, 0⟩).2.depth ≠ (Cursor.mk [0x06] 0 0).depth ∧
      after (List.replicate 49 .method) ⟨List.replicate 49 0x06 ++ [0x00, 0x00, 0x01], 0, 0⟩
        = ⟨[0x00, 0x00, 0x01], 49, 49⟩ ∧
      (method ⟨[0x00, 0x00, 0x01], 49, 49⟩).1 = .error (.nestingLimit nestingLimit) ∧
      (method ⟨[0x00, 0x00, 0x01], 0, 0⟩).1
        = .ok ⟨false, false, 0, 0, ⟨false, .element .void⟩, [], []⟩ := by
  refine ⟨?_, ?_, rfl, rfl⟩
  · decide
  · decide +kernel

end Signature

end InteropTables
