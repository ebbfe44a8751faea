import InteropTables.Reader

/-!
# What a reading step takes from the front

A step reads a value from some bytes if it gives the value and leaves whatever stands behind them,
at any place and at any depth. This file states that (`Reads`), shows how it passes through the
ways in which steps are put together, and fixes how numbers and type tokens are packed:

* `Reads`: the step gives the value for exactly these bytes, whatever follows;
* `reads_bind`, `reads_repeated`, `reads_descend`: steps one after another, repeated, and nested;
* `NumberCode`, `reads_compressed`: **every packed form of a number is read back**, in one, two or
  four bytes, the shortest form or not;
* `compressed_lt`: what is read is below the span of the packed form;
* `compress`, `numberCode_compress`: the shortest form;
* `TokenCode`, `reads_token`: the same for type tokens.
-/

namespace InteropTables

namespace Reader

variable {α β : Type}

/-! ## 1. Steps in sequence -/

/-- The step gives `a` for exactly `bytes`, whatever stands behind them; the depth is restored. -/
def Reads (r : Reader α) (a : α) (bytes : List UInt8) : Prop :=
  ∀ rest position depth,
    r ⟨bytes ++ rest, position, depth⟩ = (.ok a, ⟨rest, position + bytes.length, depth⟩)

theorem reads_pure (a : α) : Reads (pure a) a [] := by
  intro rest position depth
  rfl

/-- **Two steps read what stands side by side.** -/
theorem reads_bind {r : Reader α} {f : α → Reader β} {a : α} {b : β} {front behind : List UInt8}
    (hr : Reads r a front) (hf : Reads (f a) b behind) : Reads (r >>= f) b (front ++ behind) := by
  intro rest position depth
  rw [List.append_assoc, bind_of_ok (hr _ _ _), hf, List.length_append, Nat.add_assoc]

/-- A step whose value is only wrapped up. -/
theorem reads_map {r : Reader α} {a : α} {bytes : List UInt8} (g : α → β) (hr : Reads r a bytes) :
    Reads (r >>= fun x => pure (g x)) (g a) bytes := by
  have h := reads_bind (f := fun x => pure (g x)) hr (reads_pure (g a))
  rwa [List.append_nil] at h

/-- A chain that succeeds is a step that succeeds and what follows it. -/
theorem exists_of_bind {r : Reader α} {f : α → Reader β} {c c' : Cursor} {b : β}
    (h : (r >>= f) c = (.ok b, c')) : ∃ a c'', f a c'' = (.ok b, c') := by
  rw [bind_apply] at h
  split at h
  · exact ⟨_, _, h⟩
  · cases (Prod.mk.inj h).1

theorem reads_next (b : UInt8) : Reads next b [b] := by
  intro rest position depth
  rfl

/-- The next byte, and a step that goes on behind it. -/
theorem reads_next_bind {f : UInt8 → Reader β} {a : β} {b : UInt8} {bytes : List UInt8}
    (hf : Reads (f b) a bytes) : Reads (next >>= f) a (b :: bytes) :=
  reads_bind (reads_next b) hf

theorem reads_skip (b : UInt8) : Reads skip () [b] :=
  reads_map (fun _ => ()) (reads_next b)

/-- Looking at a byte before a step that reads from this byte on. -/
theorem reads_peek {f : UInt8 → Reader β} {a : β} {b : UInt8} {bytes : List UInt8}
    (hf : Reads (f b) a (b :: bytes)) : Reads (peek >>= f) a (b :: bytes) := by
  intro rest position depth
  have h : peek ⟨b :: bytes ++ rest, position, depth⟩
      = (.ok b, ⟨b :: bytes ++ rest, position, depth⟩) := rfl
  rw [bind_of_ok h, hf]

/-! ## 2. Steps repeated and nested -/

/-- How a list of values is coded when each value has a code. -/
inductive ListCode (Code : α → List UInt8 → Prop) : List α → List UInt8 → Prop where
  | nil : ListCode Code [] []
  | cons {a : α} {as : List α} {front behind : List UInt8} (head : Code a front)
      (tail : ListCode Code as behind) : ListCode Code (a :: as) (front ++ behind)

/-- The induction is on the list; what has been read stands in front, the last value first. -/
theorem reads_repeatedOnto {r : Reader α} {as : List α} {bytes : List UInt8}
    (h : ListCode (Reads r) as bytes) :
    ∀ done : List α, Reads (repeatedOnto r as.length done) (done.reverse ++ as) bytes := by
  induction h with
  | nil =>
    intro done rest position depth
    simp [repeatedOnto]
  | @cons a as front behind head _ ih =>
    intro done rest position depth
    have hr := head (behind ++ rest) position depth
    have hrest := ih (a :: done) rest (position + front.length) depth
    simp only [List.reverse_cons, List.append_assoc, List.singleton_append] at hrest
    rw [List.length_cons, List.append_assoc, List.length_append, ← Nat.add_assoc]
    simp only [repeatedOnto, hr, hrest]

/-- **A step taken once for each value reads the list.** -/
theorem reads_repeated {r : Reader α} {as : List α} {bytes : List UInt8}
    (h : ListCode (Reads r) as bytes) : Reads (repeated r as.length) as bytes :=
  reads_repeatedOnto h []

theorem ListCode.mono {Code Code' : α → List UInt8 → Prop} {as : List α} {bytes : List UInt8}
    (himp : ∀ a bs, Code a bs → Code' a bs) (h : ListCode Code as bytes) :
    ListCode Code' as bytes := by
  induction h with
  | nil => exact .nil
  | cons head _ ih => exact .cons (himp _ _ head) ih

theorem reads_descend {r : Reader α} {a : α} {bytes : List UInt8} (h : Reads r a bytes) :
    Reads (descend r) a bytes := by
  intro rest position depth
  simp only [descend, h rest position (depth + 1), Nat.add_sub_cancel]

/-- A level that is opened in front of a step and closed behind it. -/
theorem reads_deepen_rise {r : Reader α} {a : α} {bytes : List UInt8} (h : Reads r a bytes) :
    Reads (do deepen; let x ← r; rise; return x) a bytes := by
  intro rest position depth
  have hdeepen : deepen ⟨bytes ++ rest, position, depth⟩
      = (.ok (), ⟨bytes ++ rest, position, depth + 1⟩) := rfl
  rw [bind_of_ok hdeepen, bind_of_ok (h rest position (depth + 1))]
  rfl

/-! ## 3. Numbers -/

/-- How many numbers the packed form holds, those of 29 bits. -/
def compressedSpan : Nat := 0x20000000

/-- The packed forms of a number: the top bits of the first byte tell how many bytes there are, and
the highest byte of the number comes first. -/
inductive NumberCode : Nat → List UInt8 → Prop where
  | one {n : Nat} (h : n < 0x80) : NumberCode n [UInt8.ofNat n]
  | two {n : Nat} (h : n < 0x4000) :
      NumberCode n [UInt8.ofNat (0x80 + n / 0x100), UInt8.ofNat n]
  | four {n : Nat} (h : n < compressedSpan) :
      NumberCode n [UInt8.ofNat (0xC0 + n / 0x1000000), UInt8.ofNat (n / 0x10000),
        UInt8.ofNat (n / 0x100), UInt8.ofNat n]

/-- The shortest packed form of a number. -/
def compress (n : Nat) : List UInt8 :=
  if n < 0x80 then [UInt8.ofNat n]
  else if n < 0x4000 then [UInt8.ofNat (0x80 + n / 0x100), UInt8.ofNat n]
  else [UInt8.ofNat (0xC0 + n / 0x1000000), UInt8.ofNat (n / 0x10000), UInt8.ofNat (n / 0x100),
    UInt8.ofNat n]

theorem numberCode_compress {n : Nat} (h : n < compressedSpan) : NumberCode n (compress n) := by
  unfold compress
  split
  · exact .one ‹_›
  · split
    · exact .two ‹_›
    · exact .four h

/-- **Every packed form of a number is read back.** -/
theorem reads_compressed {n : Nat} {bytes : List UInt8} (h : NumberCode n bytes) :
    Reads compressed n bytes := by
  have hbyte : ∀ {k : Nat}, k < 256 → k < UInt8.size := id
  cases h with
  | one h =>
    have hlead : (UInt8.ofNat n).toNat = n := UInt8.toNat_ofNat_of_lt' (hbyte (by omega))
    have hone : UInt8.ofNat n < 0x80 := (UInt8.ofNat_lt_iff (hbyte (by omega))).2 h
    refine reads_next_bind ?_
    rw [if_pos hone, hlead]
    exact reads_pure n
  | two h =>
    have hlead : (UInt8.ofNat (0x80 + n / 0x100)).toNat = 0x80 + n / 0x100 :=
      UInt8.toNat_ofNat_of_lt' (hbyte (by omega))
    have hlow : (UInt8.ofNat n).toNat = n % 256 := UInt8.toNat_ofNat'
    have hone : ¬ UInt8.ofNat (0x80 + n / 0x100) < 0x80 := by
      rw [UInt8.ofNat_lt_iff (hbyte (by omega))]
      exact Nat.not_lt.2 (Nat.le_add_right _ _)
    have htwo : UInt8.ofNat (0x80 + n / 0x100) < 0xC0 := by
      rw [UInt8.ofNat_lt_iff (hbyte (by omega))]
      show 0x80 + n / 0x100 < 0xC0
      omega
    have hvalue : (UInt8.ofNat (0x80 + n / 0x100)).toNat % 0x40 * 0x100
        + (UInt8.ofNat n).toNat = n := by
      rw [hlead, hlow]
      omega
    refine reads_next_bind ?_
    rw [if_neg hone, if_pos htwo]
    have hlast := reads_map (fun b : UInt8 =>
      (UInt8.ofNat (0x80 + n / 0x100)).toNat % 0x40 * 0x100 + b.toNat) (reads_next (UInt8.ofNat n))
    rwa [hvalue] at hlast
  | four h =>
    have h : n < 0x20000000 := h
    have hlead : (UInt8.ofNat (0xC0 + n / 0x1000000)).toNat = 0xC0 + n / 0x1000000 :=
      UInt8.toNat_ofNat_of_lt' (hbyte (by omega))
    have hb₁ : (UInt8.ofNat (n / 0x10000)).toNat = n / 0x10000 % 256 := UInt8.toNat_ofNat'
    have hb₂ : (UInt8.ofNat (n / 0x100)).toNat = n / 0x100 % 256 := UInt8.toNat_ofNat'
    have hb₃ : (UInt8.ofNat n).toNat = n % 256 := UInt8.toNat_ofNat'
    have hone : ¬ UInt8.ofNat (0xC0 + n / 0x1000000) < 0x80 := by
      rw [UInt8.ofNat_lt_iff (hbyte (by omega))]
      show ¬ 0xC0 + n / 0x1000000 < 0x80
      omega
    have htwo : ¬ UInt8.ofNat (0xC0 + n / 0x1000000) < 0xC0 := by
      rw [UInt8.ofNat_lt_iff (hbyte (by omega))]
      exact Nat.not_lt.2 (Nat.le_add_right _ _)
    have hfour : UInt8.ofNat (0xC0 + n / 0x1000000) < 0xE0 := by
      rw [UInt8.ofNat_lt_iff (hbyte (by omega))]
      show 0xC0 + n / 0x1000000 < 0xE0
      omega
    have hvalue : (UInt8.ofNat (0xC0 + n / 0x1000000)).toNat % 0x20 * 0x1000000
        + (UInt8.ofNat (n / 0x10000)).toNat * 0x10000 + (UInt8.ofNat (n / 0x100)).toNat * 0x100
        + (UInt8.ofNat n).toNat = n := by
      rw [hlead, hb₁, hb₂, hb₃]
      omega
    refine reads_next_bind ?_
    rw [if_neg hone, if_neg htwo, if_pos hfour]
    refine reads_next_bind ?_
    refine reads_next_bind ?_
    have hlast := reads_map (fun b : UInt8 =>
      (UInt8.ofNat (0xC0 + n / 0x1000000)).toNat % 0x20 * 0x1000000
        + (UInt8.ofNat (n / 0x10000)).toNat * 0x10000 + (UInt8.ofNat (n / 0x100)).toNat * 0x100
        + b.toNat) (reads_next (UInt8.ofNat n))
    rwa [hvalue] at hlast

/-- A compressed number is below its span. -/
theorem compressed_lt {c c' : Cursor} {n : Nat} (h : compressed c = (.ok n, c')) :
    n < compressedSpan := by
  have hvalue : ∀ {m : Nat} {c c' : Cursor}, (pure m : Reader Nat) c = (.ok n, c') → m = n :=
    fun h => Except.ok.inj (Prod.mk.inj h).1
  have hspan : compressedSpan = 0x20000000 := rfl
  obtain ⟨lead, c₁, h⟩ := exists_of_bind h
  have := lead.toNat_lt
  split at h
  · rw [← hvalue h]
    omega
  split at h
  · obtain ⟨b, _, h⟩ := exists_of_bind h
    have := b.toNat_lt
    rw [← hvalue h]
    omega
  split at h
  · obtain ⟨b₁, _, h⟩ := exists_of_bind h
    obtain ⟨b₂, _, h⟩ := exists_of_bind h
    obtain ⟨b₃, _, h⟩ := exists_of_bind h
    have := b₁.toNat_lt
    have := b₂.toNat_lt
    have := b₃.toNat_lt
    rw [← hvalue h]
    omega
  · cases (Prod.mk.inj h).1

/-! ## 4. Type tokens -/

/-- The tables that a type token may select, by its tag: definitions, references, specifications. -/
def typeTables : List Nat := [0x02, 0x01, 0x1B]

/-- The packed forms of a type token: its row above the tag of its table. -/
inductive TokenCode : Token → List UInt8 → Prop where
  | mk {tag table row : Nat} {bytes : List UInt8} (htable : typeTables[tag]? = some table)
      (hrow : row < Token.rowSpan) (number : NumberCode (4 * row + tag) bytes) :
      TokenCode (Token.ofParts table row) bytes

/-- A row of 24 bits laid over the word of a table is the row in that table. -/
theorem rowSpan_mul_or {table row : Nat} (hrow : row < Token.rowSpan) :
    table * Token.rowSpan ||| row = table * Token.rowSpan + row % Token.rowSpan := by
  have hor := Nat.two_pow_add_eq_or_of_lt (i := 24) hrow table
  rw [Nat.mod_eq_of_lt hrow, Nat.mul_comm]
  exact hor.symm

theorem tokenBase_of_typeTables {tag table : Nat} (h : typeTables[tag]? = some table) :
    tokenBase tag = some (table * Token.rowSpan) ∧ tag < 4 := by
  match tag, h with
  | 0, h | 1, h | 2, h => cases h; exact ⟨rfl, by decide⟩

/-- What reading a token makes of a number whose low bits select a table. -/
theorem reads_token_of_base {n base : Nat} {bytes : List UInt8} (h : NumberCode n bytes)
    (hbase : tokenBase (n % 4) = some base) :
    Reads token ⟨UInt32.ofNat (base ||| n / 4)⟩ bytes := by
  have hread : Reads token ⟨UInt32.ofNat (base ||| n / 4)⟩ (bytes ++ []) := by
    refine reads_bind (reads_compressed h) ?_
    rw [hbase]
    exact reads_pure _
  rwa [List.append_nil] at hread

/-- **Every packed form of a type token is read back.** -/
theorem reads_token {t : Token} {bytes : List UInt8} (h : TokenCode t bytes) :
    Reads token t bytes := by
  cases h with
  | @mk tag table row _ htable hrow number =>
    obtain ⟨hbase, htag⟩ := tokenBase_of_typeTables htable
    have hmod : (4 * row + tag) % 4 = tag := by omega
    have hdiv : (4 * row + tag) / 4 = row := by omega
    have hread := reads_token_of_base number (hmod ▸ hbase)
    rwa [hdiv, rowSpan_mul_or hrow] at hread

/-- Reading gives some token for every number, unless its low bits are the reserved tag. -/
theorem reads_token_of_tag {n : Nat} {bytes : List UInt8} (h : NumberCode n bytes)
    (htag : n % 4 ≠ 3) : ∃ t, Reads token t bytes := by
  obtain ⟨base, hbase⟩ : ∃ base, tokenBase (n % 4) = some base := by
    have hlt : n % 4 < 3 := by omega
    match n % 4, hlt with
    | 0, _ | 1, _ | 2, _ => exact ⟨_, rfl⟩
  exact ⟨_, reads_token_of_base h hbase⟩

end Reader

end InteropTables
