import InteropTables.Proofs.Compressed
import InteropTables.Proofs.Signature.Chains

/-!
# What a reading step needs of the bytes in front of it

A step that succeeds has used some bytes. It takes them if the value depends on no others, and if
no shorter front of them is enough: there the step fails, because the bytes end. Not all steps are
of this kind. A look at the next byte uses none, and the bytes that a loop stops at are not used
either; but together with the step behind them they are.

* `Starves`: the step fails at the end of the bytes, wherever they stand;
* `Takes`: **the value is read from exactly these bytes, whatever follows, and no front of them
  will do**;
* `Exact`: wherever the step succeeds, it takes the bytes that it uses, and they have some form;
* `Exact.of_reads`, `Exact.place`: what an exact step has used, and where it stands behind it;
* `Exact.extent`: **the same step before more bytes and before fewer**;
* `Exact.bind`, `exact_peek`, `exact_repeatedOnto`, `exact_descend`: how exactness passes on;
* `exact_compressed`, `exact_token`: **numbers and tokens are exact**;
* `Spends`, `spends_repeatedOnto`: a loop that pays for every round with a byte.
-/

namespace InteropTables

namespace Reader

variable {α β : Type}

/-! ## 1. Bytes that a step takes -/

/-- The step fails because the bytes end, wherever they stand and whatever the depth is. -/
def Starves (r : Reader α) (bytes : List UInt8) : Prop :=
  ∀ position depth, (r ⟨bytes, position, depth⟩).1 = .error .outOfBounds

/-- The step gives `a` for exactly `bytes`, whatever stands behind them, and needs them all. -/
structure Takes (r : Reader α) (a : α) (bytes : List UInt8) : Prop where
  reads : Reads r a bytes
  starves : ∀ front behind, front ++ behind = bytes → behind ≠ [] → Starves r front

/-- Wherever the step succeeds, it takes the bytes that it uses, and these have a form. -/
def Exact (Form : α → List UInt8 → Prop) (r : Reader α) : Prop :=
  ∀ c a c', r c = (.ok a, c') → ∃ bytes, c.rest = bytes ++ c'.rest ∧ Takes r a bytes ∧ Form a bytes

section Exact

variable {Form Form' : α → List UInt8 → Prop} {r : Reader α} {a : α} {bytes : List UInt8}

theorem Exact.mono (h : Exact Form r) (himp : ∀ a bytes, Form a bytes → Form' a bytes) :
    Exact Form' r := by
  intro c a c' hr
  obtain ⟨bytes, hrest, htakes, hform⟩ := h c a c' hr
  exact ⟨bytes, hrest, htakes, himp _ _ hform⟩

/-- What an exact step takes is a form by itself. -/
theorem Exact.takes (h : Exact Form r) : Exact (Takes r) r := by
  intro c a c' hr
  obtain ⟨bytes, hrest, htakes, _⟩ := h c a c' hr
  exact ⟨bytes, hrest, htakes, htakes⟩

/-- **What an exact step reads it takes, and it has the form.** -/
theorem Exact.of_reads (h : Exact Form r) (hreads : Reads r a bytes) :
    Takes r a bytes ∧ Form a bytes := by
  obtain ⟨used, hrest, hused⟩ := h _ _ _ (hreads [] 0 0)
  simp only [List.append_nil] at hrest
  rwa [← hrest] at hused

/-- Behind the bytes that it has used, an exact step leaves the depth as it was. -/
theorem Exact.place (h : Exact Form r) {c c' : Cursor} (hr : r c = (.ok a, c')) :
    ∃ bytes, c.rest = bytes ++ c'.rest ∧ c' = ⟨c'.rest, c.position + bytes.length, c.depth⟩ ∧
      Takes r a bytes ∧ Form a bytes := by
  obtain ⟨bytes, hrest, htakes, hform⟩ := h c a c' hr
  refine ⟨bytes, hrest, ?_, htakes, hform⟩
  have hread := htakes.reads c'.rest c.position c.depth
  rw [← hrest] at hread
  exact congrArg Prod.snd (hr.symm.trans hread)

/-- What an exact step does where it succeeds, at the same place and depth before more bytes and
before fewer. -/
theorem Exact.extent (h : Exact Form r) {position depth : Nat} {c' : Cursor}
    (hr : r ⟨bytes, position, depth⟩ = (.ok a, c')) :
    ∃ q ≤ bytes.length, c' = ⟨bytes.drop q, position + q, depth⟩ ∧
      (∀ more, r ⟨bytes ++ more, position, depth⟩
        = (.ok a, ⟨bytes.drop q ++ more, position + q, depth⟩)) ∧
      ∀ k < q, (r ⟨bytes.take k, position, depth⟩).1 = .error .outOfBounds := by
  obtain ⟨used, hrest, hplace, htakes, _⟩ := h.place hr
  obtain rfl : bytes = used ++ c'.rest := hrest
  refine ⟨used.length, by simp, by simpa using hplace, fun more => ?_, fun k hk => ?_⟩
  · rw [List.drop_left, List.append_assoc]
    exact htakes.reads _ _ _
  · rw [List.take_append_of_le_length (Nat.le_of_lt hk)]
    refine htakes.starves _ (used.drop k) (List.take_append_drop k used) ?_ position depth
    rw [Ne, List.drop_eq_nil_iff]
    omega

theorem exact_pure (h : Form a []) : Exact Form (pure a) := by
  intro c b c' hr
  obtain ⟨hb, rfl⟩ := Prod.mk.inj hr
  obtain rfl := Except.ok.inj hb
  refine ⟨[], rfl, ⟨reads_pure _, fun front behind happend hbehind => ?_⟩, h⟩
  exact absurd (List.append_eq_nil_iff.1 happend).2 hbehind

theorem exact_fail (e : Fault) : Exact Form (fail e : Reader α) := by
  intro c a c' hr
  cases hr

end Exact

/-! ## 2. Steps in sequence -/

/-- A step that starves is followed by nothing. -/
theorem Starves.bind {r : Reader α} {bytes : List UInt8} (h : Starves r bytes)
    (f : α → Reader β) : Starves (r >>= f) bytes := by
  intro position depth
  have herror := h position depth
  rw [bind_apply]
  rcases hr : r ⟨bytes, position, depth⟩ with ⟨outcome, c'⟩
  rw [hr] at herror
  obtain rfl : outcome = .error .outOfBounds := herror
  rfl

theorem Reads.bind_starves {r : Reader α} {f : α → Reader β} {a : α} {front behind : List UInt8}
    (hr : Reads r a front) (hf : Starves (f a) behind) : Starves (r >>= f) (front ++ behind) := by
  intro position depth
  rw [bind_of_ok (hr _ _ _)]
  exact hf _ _

/-- **Two steps take what stands side by side.** A front of it ends within what the first step
takes, or behind that, within what the second one takes. -/
theorem Takes.bind {r : Reader α} {f : α → Reader β} {a : α} {b : β} {front behind : List UInt8}
    (hr : Takes r a front) (hf : Takes (f a) b behind) : Takes (r >>= f) b (front ++ behind) := by
  refine ⟨reads_bind hr.reads hf.reads, fun x y hxy hy => ?_⟩
  rcases List.append_eq_append_iff.1 hxy with ⟨z, hfront, hyz⟩ | ⟨z, hx, hbehind⟩
  · by_cases hz : z = []
    · subst hz
      rw [List.append_nil] at hfront
      rw [List.nil_append] at hyz
      subst hfront hyz
      have hstarves := hr.reads.bind_starves (hf.starves [] y rfl hy)
      rwa [List.append_nil] at hstarves
    · exact (hr.starves x z hfront.symm hz).bind f
  · rw [hx]
    exact hr.reads.bind_starves (hf.starves z y hbehind.symm hy)

/-- **Exactness passes on along a chain**: what is left of the form is asked of the second step. -/
theorem Exact.bind {Form : α → List UInt8 → Prop} {Whole : β → List UInt8 → Prop} {r : Reader α}
    {f : α → Reader β} (hr : Exact Form r)
    (hf : ∀ a front, Form a front → Exact (fun b behind => Whole b (front ++ behind)) (f a)) :
    Exact Whole (r >>= f) := by
  intro c b c' h
  rw [bind_apply] at h
  rcases hrun : r c with ⟨_ | a, c₁⟩
  · rw [hrun] at h
    cases h
  · rw [hrun] at h
    obtain ⟨front, hfront, htakes, hform⟩ := hr c a c₁ hrun
    obtain ⟨behind, hbehind, htakes', hform'⟩ := hf a front hform c₁ b c' h
    refine ⟨front ++ behind, ?_, htakes.bind htakes', hform'⟩
    rw [hfront, hbehind, List.append_assoc]

theorem exact_next : Exact (fun b bytes => bytes = [b]) next := by
  intro c b c' h
  obtain ⟨rest, position, depth⟩ := c
  cases rest with
  | nil => cases h
  | cons first rest =>
    obtain ⟨hb, rfl⟩ := Prod.mk.inj h
    obtain rfl := Except.ok.inj hb
    refine ⟨[first], rfl, ⟨reads_next first, fun front behind happend hbehind => ?_⟩, rfl⟩
    rcases List.append_eq_singleton_iff.1 happend with ⟨rfl, _⟩ | ⟨_, hnil⟩
    · intro position depth
      rfl
    · exact absurd hnil hbehind

/-- The next byte, and a step that goes on behind it. -/
theorem exact_next_bind {Whole : α → List UInt8 → Prop} {f : UInt8 → Reader α}
    (h : ∀ b, Exact (fun a behind => Whole a (b :: behind)) (f b)) : Exact Whole (next >>= f) := by
  refine exact_next.bind fun b front hfront => ?_
  rw [hfront]
  exact h b

theorem exact_skip : Exact (fun _ bytes => ∃ b, bytes = [b]) skip :=
  exact_next_bind fun b => exact_pure ⟨b, rfl⟩

/-- **A look at the next byte is exact together with a step that uses this byte.** -/
theorem exact_peek {Whole : α → List UInt8 → Prop} {f : UInt8 → Reader α}
    (h : ∀ b, Exact (fun a bytes => ∃ first tail, bytes = first :: tail ∧
      (first = b → Whole a bytes)) (f b)) : Exact Whole (peek >>= f) := by
  intro c a c' hr
  obtain ⟨rest, position, depth⟩ := c
  cases rest with
  | nil => cases hr
  | cons b rest =>
    rw [bind_apply] at hr
    obtain ⟨bytes, hrest, htakes, first, tail, rfl, hwhole⟩ := h b _ a c' hr
    obtain ⟨rfl, _⟩ := List.cons.inj hrest
    refine ⟨b :: tail, hrest, ⟨reads_peek htakes.reads, fun front behind happend hbehind => ?_⟩,
      hwhole rfl⟩
    intro position depth
    rcases List.append_eq_cons_iff.1 happend with ⟨rfl, _⟩ | ⟨front', rfl, _⟩
    · rfl
    · exact htakes.starves _ _ happend hbehind position depth

/-! ## 3. Steps repeated and nested -/

/-- The induction is on the number of values; what has been read stands in front, the last value
first. -/
theorem exact_repeatedOnto {Form : α → List UInt8 → Prop} {r : Reader α} (h : Exact Form r)
    (n : Nat) (done : List α) :
    Exact (fun as bytes => ∃ more, as = done.reverse ++ more ∧ more.length = n ∧
      ListCode Form more bytes) (repeatedOnto r n done) := by
  induction n generalizing done with
  | zero => exact exact_pure ⟨[], (List.append_nil _).symm, rfl, .nil⟩
  | succ n ih =>
    rw [repeatedOnto_succ]
    refine h.bind fun a front hfront => (ih (a :: done)).mono ?_
    rintro as behind ⟨more, rfl, hlength, hcode⟩
    refine ⟨a :: more, ?_, by rw [List.length_cons, hlength], .cons hfront hcode⟩
    rw [List.reverse_cons, List.append_assoc]
    rfl

/-- **A step taken a number of times takes a list of that length.** -/
theorem exact_repeated {Form : α → List UInt8 → Prop} {r : Reader α} (h : Exact Form r) (n : Nat) :
    Exact (fun as bytes => as.length = n ∧ ListCode Form as bytes) (repeated r n) := by
  refine (exact_repeatedOnto h n []).mono ?_
  rintro as bytes ⟨more, rfl, hlength, hcode⟩
  exact ⟨hlength, hcode⟩

theorem exact_descend {Form : α → List UInt8 → Prop} {r : Reader α} (h : Exact Form r) :
    Exact Form (descend r) := by
  intro c a c' hr
  rcases hrun : r { c with depth := c.depth + 1 } with ⟨outcome, c₁⟩
  rw [descend, hrun] at hr
  obtain ⟨rfl, rfl⟩ := Prod.mk.inj hr
  obtain ⟨bytes, hrest, htakes, hform⟩ := h _ a c₁ hrun
  refine ⟨bytes, hrest, ⟨reads_descend htakes.reads, fun front behind happend hbehind => ?_⟩, hform⟩
  intro position depth
  exact htakes.starves front behind happend hbehind position (depth + 1)

/-- A level that is opened in front of a step and closed behind it. -/
theorem exact_deepen_rise {Form : α → List UInt8 → Prop} {r : Reader α} (h : Exact Form r) :
    Exact Form (do deepen; let x ← r; rise; return x) := by
  have hdeepen : ∀ c : Cursor, (deepen >>= fun _ => r >>= fun x => rise >>= fun _ => pure x) c
      = (r >>= fun x => rise >>= fun _ => pure x) { c with depth := c.depth + 1 } := fun _ => rfl
  intro c a c' hr
  rw [hdeepen, bind_apply] at hr
  rcases hrun : r { c with depth := c.depth + 1 } with ⟨_ | b, c₁⟩
  · rw [hrun] at hr
    cases hr
  · rw [hrun] at hr
    obtain ⟨ha, rfl⟩ := Prod.mk.inj hr
    obtain rfl := Except.ok.inj ha
    obtain ⟨bytes, hrest, htakes, hform⟩ := h _ b c₁ hrun
    refine ⟨bytes, hrest,
      ⟨reads_deepen_rise htakes.reads, fun front behind happend hbehind => ?_⟩, hform⟩
    intro position depth
    rw [hdeepen]
    exact (htakes.starves front behind happend hbehind).bind _ position (depth + 1)

/-! ## 4. Numbers and tokens -/

/-- A byte is that of any number that leaves it as remainder. -/
theorem ofNat_eq_of_mod {n : Nat} {b : UInt8} (h : n % 256 = b.toNat) : UInt8.ofNat n = b := by
  apply UInt8.toNat_inj.1
  rw [UInt8.toNat_ofNat', ← h]

/-- **Numbers are exact**, and what they are read from is one of their packed forms. -/
theorem exact_compressed : Exact NumberCode compressed := by
  refine exact_next_bind fun lead => ?_
  have hlead := lead.toNat_lt
  by_cases hone : lead < 0x80
  · rw [if_pos hone]
    have hsmall : lead.toNat < 0x80 := UInt8.lt_iff_toNat_lt.1 hone
    have hcode := NumberCode.one hsmall
    rw [UInt8.ofNat_toNat] at hcode
    exact exact_pure hcode
  rw [if_neg hone]
  have hfrom : 0x80 ≤ lead.toNat := Nat.not_lt.1 fun h => hone (UInt8.lt_iff_toNat_lt.2 h)
  by_cases htwo : lead < 0xC0
  · rw [if_pos htwo]
    have hto : lead.toNat < 0xC0 := UInt8.lt_iff_toNat_lt.1 htwo
    refine exact_next_bind fun b => exact_pure ?_
    have hb := b.toNat_lt
    have hcode := NumberCode.two (n := lead.toNat % 0x40 * 0x100 + b.toNat) (by omega)
    rwa [ofNat_eq_of_mod (b := lead) (by omega), ofNat_eq_of_mod (b := b) (by omega)] at hcode
  rw [if_neg htwo]
  have hfrom : 0xC0 ≤ lead.toNat := Nat.not_lt.1 fun h => htwo (UInt8.lt_iff_toNat_lt.2 h)
  by_cases hfour : lead < 0xE0
  · rw [if_pos hfour]
    have hto : lead.toNat < 0xE0 := UInt8.lt_iff_toNat_lt.1 hfour
    refine exact_next_bind fun b₁ => exact_next_bind fun b₂ => exact_next_bind fun b₃ =>
      exact_pure ?_
    have hb₁ := b₁.toNat_lt
    have hb₂ := b₂.toNat_lt
    have hb₃ := b₃.toNat_lt
    have hspan : compressedSpan = 0x20000000 := rfl
    have hcode := NumberCode.four (n := lead.toNat % 0x20 * 0x1000000 + b₁.toNat * 0x10000
      + b₂.toNat * 0x100 + b₃.toNat) (by omega)
    rwa [ofNat_eq_of_mod (b := lead) (by omega), ofNat_eq_of_mod (b := b₁) (by omega),
      ofNat_eq_of_mod (b := b₂) (by omega), ofNat_eq_of_mod (b := b₃) (by omega)] at hcode
  · rw [if_neg hfour]
    exact exact_fail _

theorem NumberCode.ne_nil {n : Nat} {bytes : List UInt8} (h : NumberCode n bytes) : bytes ≠ [] := by
  cases h <;> exact List.cons_ne_nil _ _

/-- **Tokens are exact**, and what they are read from is a number without the reserved tag. -/
theorem exact_token : Exact (fun _ bytes => ∃ n, NumberCode n bytes ∧ n % 4 ≠ 3) token := by
  refine exact_compressed.bind fun n front hnumber => ?_
  rcases hbase : tokenBase (n % 4) with _ | base
  · exact exact_fail _
  · refine exact_pure ⟨n, by rwa [List.append_nil], fun htag => ?_⟩
    rw [htag] at hbase
    cases hbase

/-! ## 5. Loops paid for in bytes -/

/-- A loop pays for its rounds in bytes. One round more fails, however many are left behind it, or
it leaves these to do behind at least one byte more. So with more rounds than bytes the loop fails,
in the same way for every number of rounds. -/
structure Spends {σ : Type} (loop : Nat → σ → Reader α) : Prop where
  round : ∀ s c, (∃ e c', ∀ n, loop (n + 1) s c = (.error e, c')) ∨
    ∃ s' c', c.position < c'.position ∧ c'.size = c.size ∧ ∀ n, loop (n + 1) s c = loop n s' c'
  beyond : ∀ s c, ∃ e c', ∀ n, c.rest.length < n → loop n s c = (.error e, c')

/-- It is enough that every round pays. The induction is on a bound of the bytes that are left. -/
theorem Spends.of_round {σ : Type} {loop : Nat → σ → Reader α}
    (round : ∀ s c, (∃ e c', ∀ n, loop (n + 1) s c = (.error e, c')) ∨
      ∃ s' c', c.position < c'.position ∧ c'.size = c.size ∧
        ∀ n, loop (n + 1) s c = loop n s' c') : Spends loop := by
  have hbeyond : ∀ bound s c, c.rest.length < bound →
      ∃ e c', ∀ n, c.rest.length < n → loop n s c = (.error e, c') := by
    intro bound
    induction bound with
    | zero => exact fun _ _ h => absurd h (Nat.not_lt_zero _)
    | succ bound ih =>
      intro s c hc
      rcases round s c with ⟨e, c', hfails⟩ | ⟨s', c', hposition, hsize, hpasses⟩
      · refine ⟨e, c', fun n hn => ?_⟩
        obtain ⟨k, rfl⟩ := Nat.exists_eq_succ_of_ne_zero (Nat.ne_zero_of_lt hn)
        exact hfails k
      · have hshorter : c'.rest.length < c.rest.length := by
          simp only [Cursor.size] at hsize
          omega
        obtain ⟨e, c'', hfails⟩ := ih s' c' (by omega)
        refine ⟨e, c'', fun n hn => ?_⟩
        obtain ⟨k, rfl⟩ := Nat.exists_eq_succ_of_ne_zero (Nat.ne_zero_of_lt hn)
        rw [hpasses k]
        exact hfails k (by omega)
  exact ⟨round, fun s c => hbeyond _ s c (Nat.lt_succ_self _)⟩

/-- What a step that uses a byte does to the cursor. -/
theorem Exact.spends {Form : α → List UInt8 → Prop} {r : Reader α} (h : Exact Form r)
    (hne : ∀ a bytes, Form a bytes → bytes ≠ []) {c c' : Cursor} {a : α} (hr : r c = (.ok a, c')) :
    c.position < c'.position ∧ c'.size = c.size := by
  obtain ⟨bytes, hrest, hplace, _, hform⟩ := h.place hr
  have hlength := List.length_pos_iff.2 (hne a bytes hform)
  have hposition : c'.position = c.position + bytes.length := congrArg Cursor.position hplace
  refine ⟨by omega, ?_⟩
  simp only [Cursor.size, hrest, List.length_append]
  omega

/-- A step that uses a byte, taken a number of times. -/
theorem spends_repeatedOnto {Form : α → List UInt8 → Prop} {r : Reader α}
    (h : Exact Form r) (hne : ∀ a bytes, Form a bytes → bytes ≠ []) : Spends (repeatedOnto r) := by
  refine .of_round fun done c => ?_
  rcases hr : r c with ⟨e | a, c'⟩
  · exact .inl ⟨e, c', fun n => by simp only [repeatedOnto, hr]⟩
  · obtain ⟨hposition, hsize⟩ := h.spends hne hr
    exact .inr ⟨a :: done, c', hposition, hsize, fun n => by simp only [repeatedOnto, hr]⟩

end Reader

end InteropTables
