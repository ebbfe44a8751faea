import Mathlib.Data.List.Forall2

/-!
# Steps that may fail

A step gives a value or fails, and the first step of a list that fails ends the list. What such a
run gives, and when, is said here once for all lists of steps.

* `bind_ok`, `bind_eq_ok`, `exists_of_bind_ok`, `exists_of_map_ok`: a step with another behind it;
* `exists_of_any`: a check of the value of a step;
* `mapM_ok`, `mapM_cons_ok`: steps that all succeed, forwards;
* `mapM_congr`: two lists of steps that go alike one by one;
* `exists_of_mapM_cons_ok`, `forall_of_mapM_ok`, `length_of_mapM_ok`: what a success tells;
* `mapM_eq_ok_iff`: **a list of steps succeeds with the values of its steps, one for one**;
* `toOption_mapM_congr`: lists of steps that differ only in how they fail;
* `mapM_eq_error_iff`: **it fails with the failure of its first step that fails**;
* `exists_mem_of_forall₂`: what goes with an element of the first of two lists;
* `foldlM_keeps`: what every step of a fold keeps;
* `Spares`: **ways in which a step does not fail**, and nor do steps put together from such steps.
-/

namespace InteropTables

variable {ε α β : Type}

/-! ## 1. One step behind another -/

/-- A step that gives a value is followed by the rest. -/
@[simp] theorem bind_ok (a : α) (f : α → Except ε β) : ((.ok a : Except ε α) >>= f) = f a := rfl

/-- A step that fails is followed by nothing. -/
@[simp] theorem bind_error (e : ε) (f : α → Except ε β) :
    ((.error e : Except ε α) >>= f) = .error e := rfl

/-- A step that gives a value, with a step behind it that does. -/
theorem bind_eq_ok {x : Except ε α} {f : α → Except ε β} {a : α} {b : β} (hx : x = .ok a)
    (hf : f a = .ok b) : (x >>= f) = .ok b := by
  rw [hx, bind_ok, hf]

theorem exists_of_bind_ok {x : Except ε α} {f : α → Except ε β} {b : β}
    (h : (x >>= f) = .ok b) : ∃ a, x = .ok a ∧ f a = .ok b := by
  cases x with
  | ok a => exact ⟨a, rfl, h⟩
  | error e => cases h

theorem exists_of_map_ok {x : Except ε α} {f : α → β} {b : β} (h : x.map f = .ok b) :
    ∃ a, x = .ok a ∧ f a = b := by
  cases x with
  | ok a => exact ⟨a, rfl, Except.ok.inj h⟩
  | error e => cases h

/-- What is made of the value of a step does not fail. -/
theorem bind_pure_eq_error_iff {x : Except ε α} {f : α → β} {e : ε} :
    (do return f (← x)) = .error e ↔ x = .error e := by
  cases x with
  | ok a => simp [pure, Except.pure]
  | error e' => simp

/-- What is checked of the value of a step is checked of a value that it gives. -/
theorem exists_of_any {x : Except ε α} {p : α → Bool} (h : x.toOption.any p = true) :
    ∃ a, x = .ok a ∧ p a = true := by
  obtain ⟨a, hx, ha⟩ := (Option.any_eq_true p _).1 h
  cases x with
  | ok b => exact ⟨a, congrArg _ (Option.some.inj hx), ha⟩
  | error e => cases hx

/-! ## 2. Lists of steps -/

/-- Steps that give a value each give the list of the values. -/
theorem mapM_ok {f : α → Except ε β} {g : α → β} {l : List α} (h : ∀ a ∈ l, f a = .ok (g a)) :
    l.mapM f = .ok (l.map g) := by
  induction l with
  | nil => rfl
  | cons a l ih =>
    rw [List.mapM_cons, h a (List.mem_cons_self ..), ih fun b hb => h b (List.mem_cons_of_mem _ hb)]
    rfl

/-- Two lists of steps that go alike one by one go alike as a whole. -/
theorem mapM_congr {α' : Type} {f : α → Except ε β} {f' : α' → Except ε β} {l : List α}
    {l' : List α'} (h : List.Forall₂ (fun a a' => f' a' = f a) l l') : l'.mapM f' = l.mapM f := by
  induction h with
  | nil => rfl
  | cons hfirst _ ih => rw [List.mapM_cons, List.mapM_cons, hfirst, ih]

theorem mapM_cons_ok {f : α → Except ε β} {a : α} (b : β) {l : List α} (bs : List β)
    (hfirst : f a = .ok b) (hmore : l.mapM f = .ok bs) : (a :: l).mapM f = .ok (b :: bs) := by
  rw [List.mapM_cons, hfirst, hmore]
  rfl

theorem exists_of_mapM_cons_ok {f : α → Except ε β} {a : α} {l : List α} {found : List β}
    (h : (a :: l).mapM f = .ok found) :
    ∃ b more, f a = .ok b ∧ l.mapM f = .ok more ∧ found = b :: more := by
  rw [List.mapM_cons] at h
  obtain ⟨b, ha, h⟩ := exists_of_bind_ok h
  obtain ⟨more, hl, h⟩ := exists_of_bind_ok h
  exact ⟨b, more, ha, hl, (Except.ok.inj h).symm⟩

/-- **A list of steps succeeds with the values of its steps, one for one.** -/
theorem mapM_eq_ok_iff {f : α → Except ε β} {l : List α} {found : List β} :
    l.mapM f = .ok found ↔ List.Forall₂ (fun a b => f a = .ok b) l found := by
  induction l generalizing found with
  | nil =>
    rw [List.forall₂_nil_left_iff]
    exact ⟨fun h => (Except.ok.inj h).symm, fun h => h ▸ rfl⟩
  | cons a l ih =>
    constructor
    · intro h
      obtain ⟨b, more, ha, hl, rfl⟩ := exists_of_mapM_cons_ok h
      exact .cons ha (ih.1 hl)
    · rintro (_ | ⟨ha, hl⟩)
      exact mapM_cons_ok _ _ ha (ih.2 hl)

theorem toOption_bind (x : Except ε α) (f : α → Except ε β) :
    (x >>= f).toOption = x.toOption.bind fun a => (f a).toOption := by
  cases x <;> rfl

/-- Steps that give the same values one by one, if they do not fail, give the same as a list. -/
theorem toOption_mapM_congr {f f' : α → Except ε β} {l : List α}
    (h : ∀ a ∈ l, (f' a).toOption = (f a).toOption) :
    (l.mapM f').toOption = (l.mapM f).toOption := by
  induction l with
  | nil => rfl
  | cons a l ih =>
    obtain ⟨ha, hl⟩ := List.forall_mem_cons.1 h
    rw [List.mapM_cons, List.mapM_cons, toOption_bind, toOption_bind, ha]
    congr 1
    funext b
    rw [toOption_bind, toOption_bind, ih hl]

theorem length_of_mapM_ok {f : α → Except ε β} {l : List α} {found : List β}
    (h : l.mapM f = .ok found) : found.length = l.length :=
  (mapM_eq_ok_iff.1 h).length_eq.symm

/-- Every element of a list has one that goes with it in the other. -/
theorem exists_mem_of_forall₂ {R : α → β → Prop} {l : List α} {l' : List β}
    (h : List.Forall₂ R l l') : ∀ a ∈ l, ∃ b ∈ l', R a b := by
  induction h with
  | nil => exact fun _ ha => nomatch ha
  | cons hab _ ih =>
    refine List.forall_mem_cons.2 ⟨⟨_, List.mem_cons_self .., hab⟩, fun a ha => ?_⟩
    obtain ⟨b, hb, hR⟩ := ih a ha
    exact ⟨b, List.mem_cons_of_mem _ hb, hR⟩

theorem forall_of_mapM_ok {f : α → Except ε β} {P : β → Prop} {l : List α} {found : List β}
    (h : l.mapM f = .ok found) (hf : ∀ a b, f a = .ok b → P b) : ∀ b ∈ found, P b := by
  induction mapM_eq_ok_iff.1 h with
  | nil => exact fun _ hb => nomatch hb
  | cons ha _ ih => exact List.forall_mem_cons.2 ⟨hf _ _ ha, ih (mapM_eq_ok_iff.2 ‹_›)⟩

/-- What every step of a fold keeps is kept by the whole fold. -/
theorem foldlM_keeps {f : β → α → Except ε β} {P : β → Prop}
    (hf : ∀ b a b', f b a = .ok b' → P b → P b') {l : List α} {b b' : β}
    (h : l.foldlM f b = .ok b') (hb : P b) : P b' := by
  induction l generalizing b with
  | nil => exact Except.ok.inj h ▸ hb
  | cons a l ih =>
    rw [List.foldlM_cons] at h
    obtain ⟨next, hnext, h⟩ := exists_of_bind_ok h
    exact ih h (hf b a next hnext hb)

/-- **A list of steps fails with the failure of its first step that fails.** The induction is on the
list; what stands behind the failing step is not looked at. -/
theorem mapM_eq_error_iff {f : α → Except ε β} {l : List α} {e : ε} :
    l.mapM f = .error e ↔ ∃ front a behind, l = front ++ a :: behind ∧
      (∀ b ∈ front, ∃ found, f b = .ok found) ∧ f a = .error e := by
  induction l with
  | nil =>
    constructor
    · intro h
      cases h
    · rintro ⟨front, a, behind, h, -⟩
      cases front <;> cases h
  | cons a l ih =>
    rw [List.mapM_cons]
    cases ha : f a with
    | error e' =>
      rw [bind_error]
      constructor
      · intro h
        obtain rfl := Except.error.inj h
        exact ⟨[], a, l, rfl, List.forall_mem_nil _, ha⟩
      · rintro ⟨front, c, behind, h, hfront, hc⟩
        cases front with
        | nil =>
          obtain ⟨rfl, -⟩ := List.cons.inj h
          exact congrArg _ (Except.error.inj (ha.symm.trans hc))
        | cons b front =>
          obtain ⟨rfl, -⟩ := List.cons.inj h
          obtain ⟨found, hfound⟩ := hfront a (List.mem_cons_self ..)
          rw [ha] at hfound
          cases hfound
    | ok b =>
      rw [bind_ok, bind_pure_eq_error_iff, ih]
      constructor
      · rintro ⟨front, c, behind, rfl, hfront, hc⟩
        exact ⟨a :: front, c, behind, rfl, List.forall_mem_cons.2 ⟨⟨b, ha⟩, hfront⟩, hc⟩
      · rintro ⟨front, d, behind, h, hfront, hd⟩
        cases front with
        | nil =>
          obtain ⟨rfl, -⟩ := List.cons.inj h
          rw [ha] at hd
          cases hd
        | cons c front =>
          obtain ⟨-, rfl⟩ := List.cons.inj h
          exact ⟨front, d, behind, rfl, (List.forall_mem_cons.1 hfront).2, hd⟩

/-! ## 3. Failures that do not occur -/

/-- A step does not fail in certain ways. -/
structure Spares (bad : ε → Prop) (x : Except ε α) : Prop where
  not_bad : ∀ e, x = .error e → ¬ bad e

section Spares

variable {bad : ε → Prop}

@[simp] theorem spares_ok (a : α) : Spares bad (.ok a) :=
  ⟨fun _ h => nomatch h⟩

@[simp] theorem spares_pure (a : α) : Spares bad (pure a : Except ε α) :=
  spares_ok a

@[simp] theorem spares_error_iff {e : ε} : Spares bad (.error e : Except ε α) ↔ ¬ bad e := by
  refine ⟨fun h => h.not_bad e rfl, fun he => ⟨fun e' h => ?_⟩⟩
  rwa [← Except.error.inj h]

/-- Two steps, one behind the other. -/
@[simp] theorem spares_bind_iff {x : Except ε α} {f : α → Except ε β} :
    Spares bad (x >>= f) ↔ Spares bad x ∧ ∀ a, x = .ok a → Spares bad (f a) := by
  cases x with
  | ok a => simp
  | error e => simp

@[simp] theorem spares_map_iff {x : Except ε α} {f : α → β} :
    Spares bad (x.map f) ↔ Spares bad x := by
  cases x with
  | ok a => exact iff_of_true (spares_ok _) (spares_ok _)
  | error e => exact spares_error_iff.trans spares_error_iff.symm

@[simp] theorem spares_functor_map_iff {x : Except ε α} {f : α → β} :
    Spares bad (f <$> x) ↔ Spares bad x :=
  spares_map_iff

@[simp] theorem spares_ite_iff {p : Prop} [Decidable p] {x y : Except ε α} :
    Spares bad (if p then x else y) ↔ (p → Spares bad x) ∧ (¬ p → Spares bad y) := by
  split <;> simp [*]

/-- A result that may be missing. -/
@[simp] theorem spares_elim_iff {o : Option α} {e : ε} :
    Spares bad (o.elim (.error e) .ok) ↔ (o = none → ¬ bad e) := by
  cases o <;> simp

/-- A list of steps fails in no way in which its steps do not. -/
theorem spares_mapM {f : α → Except ε β} {l : List α} (h : ∀ a ∈ l, Spares bad (f a)) :
    Spares bad (l.mapM f) := by
  refine ⟨fun e he => ?_⟩
  obtain ⟨front, a, behind, rfl, -, ha⟩ := mapM_eq_error_iff.1 he
  exact (h a (List.mem_append_right _ (List.mem_cons_self ..))).not_bad e ha

theorem spares_foldlM {f : β → α → Except ε β} {l : List α}
    (h : ∀ a ∈ l, ∀ b, Spares bad (f b a)) (b : β) : Spares bad (l.foldlM f b) := by
  induction l generalizing b with
  | nil => exact spares_ok b
  | cons a l ih =>
    obtain ⟨ha, hl⟩ := List.forall_mem_cons.1 h
    rw [List.foldlM_cons]
    exact spares_bind_iff.2 ⟨ha b, fun next _ => ih hl next⟩

end Spares

end InteropTables
