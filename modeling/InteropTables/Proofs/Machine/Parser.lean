import InteropTables.Proofs.Machine.Blocks
import InteropTables.Signature.Decode

/-!
# Reading in order on a machine of words

A parser holds a block, the place reached in it and the number of open levels, both numbers of
eight bytes. It corresponds to the cursor that sees what stands behind the place.

* `Parser`, `Parse`: a parser, and a reading step that may trap;
* `TracksAt`, `Tracks`: **a step is not stopped at a parser and does what a reading step does at its
  cursor**; a step that succeeds leaves as many levels open as it found, one that fails may leave
  more (`Reached`);
* `TracksAt.bind`, `Tracks.bind`: the relations are kept when steps follow each other;
* `next`, `peek`, `advance`, `compressed`, `token`, `repeatedOnto`: the steps of the library.
-/

namespace InteropTables

namespace Machine

variable {α β : Type} {d : Nat}

/-! ## 1. Parsers and steps -/

/-- A block, the place reached in it and the open levels. -/
structure Parser where
  data : ByteArray
  position : Nat := 0
  depth : Nat := 0

namespace Parser

/-- The cursor that sees what stands behind the place. -/
def cursor (p : Parser) : Cursor :=
  ⟨(Bytes.toList p.data).drop p.position, p.position, p.depth⟩

/-- The place lies in the block, and the block is one whose size four bytes hold. -/
structure Sound (p : Parser) : Prop where
  size : p.data.size < wordCount 4
  position : p.position ≤ p.data.size

theorem cursor_ofBlock (data : ByteArray) : cursor { data } = Cursor.ofBlock data := rfl

theorem sound_ofBlock {data : ByteArray} (h : data.size < wordCount 4) : Sound { data } :=
  ⟨h, Nat.zero_le _⟩

end Parser

/-- A reading step that may trap. -/
def Parse (α : Type) : Type :=
  Parser → Except Trap (Except Fault α × Parser)

namespace Parse

instance : Monad Parse where
  pure a := fun p => .ok (.ok a, p)
  bind x f := fun p =>
    match x p with
    | .error t => .error t
    | .ok (.ok a, p') => f a p'
    | .ok (.error e, p') => .ok (.error e, p')

/-- The step that is stopped. -/
def trap (t : Trap) : Parse α :=
  fun _ => .error t

/-- The step that fails where it stands. -/
def fail (e : Fault) : Parse α :=
  fun p => .ok (.error e, p)

/-- The parser itself. -/
def get : Parse Parser :=
  fun p => .ok (.ok p, p)

/-- Another parser. -/
def set (p : Parser) : Parse Unit :=
  fun _ => .ok (.ok (), p)

/-- A run as a step that does not move. -/
def lift (x : Run α) : Parse α := fun p =>
  match x with
  | .error t => .error t
  | .ok outcome => .ok (outcome, p)

/-- The outcome of a step as a value, so that the next step may look at a failure. -/
def attempt (x : Parse α) : Parse (Except Fault α) := fun p =>
  match x p with
  | .error t => .error t
  | .ok (outcome, p') => .ok (.ok outcome, p')

/-- The step with a given outcome. -/
def of (outcome : Except Fault α) : Parse α :=
  fun p => .ok (outcome, p)

/-- The outcome of a step at the front of a block. -/
def run (x : Parse α) (data : ByteArray) : Run α :=
  match x { data } with
  | .error t => .trap t
  | .ok (outcome, _) => .of outcome

theorem bind_apply (x : Parse α) (f : α → Parse β) (p : Parser) :
    (x >>= f) p = match x p with
      | .error t => .error t
      | .ok (.ok a, p') => f a p'
      | .ok (.error e, p') => .ok (.error e, p') := rfl

theorem bind_apply_ok {x : Parse α} {f : α → Parse β} {p p' : Parser} {a : α}
    (h : x p = .ok (.ok a, p')) : (x >>= f) p = f a p' := by
  rw [bind_apply, h]

theorem bind_apply_error {x : Parse α} {f : α → Parse β} {p p' : Parser} {e : Fault}
    (h : x p = .ok (.error e, p')) : (x >>= f) p = .ok (.error e, p') := by
  rw [bind_apply, h]

theorem get_then (f : Parser → Parse α) (p : Parser) : (get >>= f) p = f p p := rfl

theorem lift_pure_then (a : α) (f : α → Parse β) (p : Parser) : (lift (pure a) >>= f) p = f a p :=
  rfl

end Parse

/-! ## 2. Steps on parsers and on cursors -/

/-- What a step that is not stopped leaves behind. -/
structure Reached (p p' : Parser) (outcome : Except Fault α) : Prop where
  data : p'.data = p.data
  forward : p.position ≤ p'.position
  position : p'.position ≤ p'.data.size
  deeper : p.depth ≤ p'.depth
  settled : ∀ a, outcome = .ok a → p'.depth = p.depth

/-- A step is not stopped at a parser and does what a reading step does at its cursor. -/
def TracksAt (p : Parser) (x : Parse α) (r : Reader α) : Prop :=
  ∃ p', x p = .ok ((r p.cursor).1, p') ∧ p'.cursor = (r p.cursor).2 ∧ Reached p p' (r p.cursor).1

/-- A step does so at all parsers with `d` open levels. -/
def Tracks (d : Nat) (x : Parse α) (r : Reader α) : Prop :=
  ∀ p : Parser, p.Sound → p.depth = d → TracksAt p x r

namespace Reached

theorem refl {p : Parser} (hp : p.Sound) (outcome : Except Fault α) : Reached p p outcome :=
  ⟨rfl, Nat.le_refl _, hp.position, Nat.le_refl _, fun _ _ => rfl⟩

/-- A sound parser stays sound. -/
theorem sound {p p' : Parser} {outcome : Except Fault α} (h : Reached p p' outcome)
    (hp : p.Sound) : p'.Sound :=
  ⟨h.data ▸ hp.size, h.position⟩

theorem trans {p p' p'' : Parser} {a : α} {outcome : Except Fault β}
    (h : Reached p p' (.ok a : Except Fault α)) (hmore : Reached p' p'' outcome) :
    Reached p p'' outcome :=
  ⟨hmore.data.trans h.data, Nat.le_trans h.forward hmore.forward, hmore.position,
    Nat.le_trans h.deeper hmore.deeper,
    fun b hb => (hmore.settled b hb).trans (h.settled a rfl)⟩

/-- A step that fails may leave levels open. -/
theorem fails {p p' : Parser} {outcome : Except Fault α} (h : Reached p p' outcome) (e : Fault) :
    Reached p p' (.error e : Except Fault β) :=
  ⟨h.data, h.forward, h.position, h.deeper, fun _ hb => nomatch hb⟩

end Reached

/-- **A step is followed by another one as a reading step is.** -/
theorem TracksAt.bind {p : Parser} {x : Parse α} {r : Reader α} {f : α → Parse β}
    {g : α → Reader β} (h : TracksAt p x r)
    (hmore : ∀ a p', r p.cursor = (.ok a, p'.cursor) → Reached p p' (.ok a : Except Fault α) →
      TracksAt p' (f a) (g a)) : TracksAt p (x >>= f) (r >>= g) := by
  obtain ⟨p', hx, hcursor, hreached⟩ := h
  rcases hr : r p.cursor with ⟨outcome, c'⟩
  rw [hr] at hx hcursor hreached
  obtain rfl : p'.cursor = c' := hcursor
  cases outcome with
  | ok a =>
    obtain ⟨p'', hf, hcursor', hreached'⟩ := hmore a p' hr hreached
    rw [TracksAt, Reader.bind_of_ok hr, Parse.bind_apply_ok hx]
    exact ⟨p'', hf, hcursor', hreached.trans hreached'⟩
  | error e =>
    rw [TracksAt, Reader.bind_of_error hr, Parse.bind_apply_error hx]
    exact ⟨p', rfl, rfl, hreached.fails e⟩

theorem tracks_pure (a : α) : Tracks d (pure a) (pure a) :=
  fun p hp _ => ⟨p, rfl, rfl, .refl hp _⟩

theorem tracks_fail (e : Fault) : Tracks d (Parse.fail e : Parse α) (Reader.fail e) :=
  fun p hp _ => ⟨p, rfl, rfl, .refl hp _⟩

theorem Tracks.bind {x : Parse α} {r : Reader α} {f : α → Parse β} {g : α → Reader β}
    (h : Tracks d x r) (hmore : ∀ a, Tracks d (f a) (g a)) : Tracks d (x >>= f) (r >>= g) :=
  fun p hp hd => (h p hp hd).bind fun a p' _ hreached =>
    hmore a p' (hreached.sound hp) ((hreached.settled a rfl).trans hd)

theorem Tracks.map {x : Parse α} {r : Reader α} (f : α → β) (h : Tracks d x r) :
    Tracks d (x >>= fun a => pure (f a)) (r >>= fun a => pure (f a)) :=
  h.bind fun a => tracks_pure (f a)

/-! ## 3. Plain bytes -/

/-- The next byte. -/
def next : Parse UInt8 := do
  let p ← Parse.get
  let (n, position) ← Parse.lift (readAt p.data 1 p.position)
  Parse.set { p with position }
  return UInt8.ofNat n

/-- The next byte, left in place. -/
def peek : Parse UInt8 := do
  let p ← Parse.get
  match p.data.data[p.position]? with
  | some b => return b
  | none => Parse.fail .outOfBounds

/-- One byte further. -/
def advance : Parse Unit := do
  let p ← Parse.get
  if p.data.size ≤ p.position then Parse.fail .outOfBounds
  else do
    let position ← Parse.lift (add 8 p.position 1)
    Parse.set { p with position }

theorem Parser.Sound.size_lt {p : Parser} (hp : p.Sound) : p.data.size < wordCount 8 := by
  have := hp.size
  rw [wordCount_four] at this
  rw [wordCount_eight]
  omega

/-- A parser stands at the end of its block, or in front of a byte. -/
theorem Parser.Sound.cases {p : Parser} (hp : p.Sound) :
    (p.position = p.data.size ∧ p.cursor.rest = []) ∨
    ∃ b rest, p.position < p.data.size ∧ p.cursor.rest = b :: rest ∧
      p.data.data[p.position]? = some b ∧ Bytes.number p.data 1 p.position = b.toNat ∧
      ∀ depth, Parser.cursor { p with position := p.position + 1, depth }
        = ⟨rest, p.position + 1, depth⟩ := by
  have hlength := Bytes.length_toList p.data
  have hrest : p.cursor.rest = (Bytes.toList p.data).drop p.position := rfl
  rcases Nat.eq_or_lt_of_le hp.position with hend | hlt
  · refine Or.inl ⟨hend, ?_⟩
    rw [hrest, List.drop_eq_nil_of_le (by omega)]
  · have hbound : p.position < (Bytes.toList p.data).length := by omega
    have hdrop := List.drop_eq_getElem_cons hbound
    refine Or.inr ⟨_, _, hlt, hrest.trans hdrop, ?_, ?_, fun depth => rfl⟩
    · rw [← Array.getElem?_toList]
      exact List.getElem?_eq_getElem hbound
    · rw [Bytes.number, hdrop]
      exact Nat.add_zero _

theorem tracks_next : Tracks d next Reader.next := by
  intro p hp hd
  rcases hp.cases with ⟨hend, hrest⟩ | ⟨b, rest, hlt, hrest, _, hnumber, hcursor⟩
  · have hread : readAt p.data 1 p.position = .fail .outOfBounds := readAt_of_lt (by omega)
    have hr : Reader.next p.cursor = (.error .outOfBounds, p.cursor) := by
      rw [Reader.next, hrest]
    refine ⟨p, ?_, by rw [hr], by rw [hr]; exact .refl hp _⟩
    rw [next, Parse.get_then, hread, hr]
    rfl
  · have hread : readAt p.data 1 p.position = pure (b.toNat, p.position + 1) := by
      rw [readAt_of_le hp.size_lt hlt, hnumber]
    have hr : Reader.next p.cursor = (.ok b, ⟨rest, p.position + 1, p.depth⟩) := by
      rw [Reader.next, hrest]
      rfl
    refine ⟨{ p with position := p.position + 1 }, ?_, by rw [hr]; exact hcursor p.depth, ?_⟩
    · rw [next, Parse.get_then, hread, hr, Parse.lift_pure_then]
      show Except.ok (Except.ok (UInt8.ofNat b.toNat), _) = _
      rw [UInt8.ofNat_toNat]
    · rw [hr]
      exact ⟨rfl, Nat.le_succ _, hlt, Nat.le_refl _, fun _ _ => rfl⟩

theorem tracks_peek : Tracks d peek Reader.peek := by
  intro p hp hd
  rcases hp.cases with ⟨hend, hrest⟩ | ⟨b, rest, hlt, hrest, hbyte, _, _⟩
  · have hnone : p.data.data[p.position]? = none :=
      Array.getElem?_eq_none (Nat.le_of_eq hend.symm)
    have hr : Reader.peek p.cursor = (.error .outOfBounds, p.cursor) := by
      rw [Reader.peek, hrest]
    refine ⟨p, ?_, by rw [hr], by rw [hr]; exact .refl hp _⟩
    rw [peek, Parse.get_then, hnone, hr]
    rfl
  · have hr : Reader.peek p.cursor = (.ok b, p.cursor) := by
      rw [Reader.peek, hrest]
    refine ⟨p, ?_, by rw [hr], by rw [hr]; exact .refl hp _⟩
    rw [peek, Parse.get_then, hbyte, hr]
    rfl

theorem tracks_advance : Tracks d advance Reader.skip := by
  intro p hp hd
  rcases hp.cases with ⟨hend, hrest⟩ | ⟨b, rest, hlt, hrest, _, _, hcursor⟩
  · have hr : Reader.skip p.cursor = (.error .outOfBounds, p.cursor) := by
      refine Reader.bind_of_error ?_
      rw [Reader.next, hrest]
    refine ⟨p, ?_, by rw [hr], by rw [hr]; exact .refl hp _⟩
    rw [advance, Parse.get_then, if_pos (Nat.le_of_eq hend.symm), hr]
    rfl
  · have hr : Reader.skip p.cursor = (.ok (), ⟨rest, p.position + 1, p.depth⟩) := by
      have hnext : Reader.next p.cursor = (.ok b, ⟨rest, p.position + 1, p.depth⟩) := by
        rw [Reader.next, hrest]
        rfl
      exact Reader.bind_of_ok hnext
    have hadd : add 8 p.position 1 = pure (p.position + 1) :=
      add_of_lt (Nat.lt_of_le_of_lt hlt hp.size_lt)
    refine ⟨{ p with position := p.position + 1 }, ?_, by rw [hr]; exact hcursor p.depth, ?_⟩
    · rw [advance, Parse.get_then, if_neg (Nat.not_le_of_lt hlt), hadd, hr]
      rfl
    · rw [hr]
      exact ⟨rfl, Nat.le_succ _, hlt, Nat.le_refl _, fun _ _ => rfl⟩

/-! ## 4. Numbers and tokens -/

/-- An unsigned number in one, two or four bytes. -/
def compressed : Parse Nat := do
  let lead ← next
  if lead < 0x80 then
    return lead.toNat
  else if lead < 0xC0 then
    let b ← next
    return lead.toNat % 0x40 * 0x100 + b.toNat
  else if lead < 0xE0 then
    let b₁ ← next
    let b₂ ← next
    let b₃ ← next
    return lead.toNat % 0x20 * 0x1000000 + b₁.toNat * 0x10000 + b₂.toNat * 0x100 + b₃.toNat
  else
    Parse.fail (.malformed (.compressedLead lead))

/-- A type token. -/
def token : Parse Token := do
  let v ← compressed
  match Reader.tokenBase (v % 4) with
  | some base => return ⟨UInt32.ofNat (base ||| v / 4)⟩
  | none => Parse.fail (.malformed (.compressedTag v))

/-- The values of a step taken `n` times, behind those already in `read` (last one first). -/
def repeatedOnto (x : Parse α) : (n : Nat) → (read : List α) → Parse (List α)
  | 0, read => pure read.reverse
  | n + 1, read => do
    let a ← x
    repeatedOnto x n (a :: read)

theorem tracks_compressed : Tracks d compressed Reader.compressed := by
  refine tracks_next.bind fun lead => ?_
  by_cases hone : lead < 0x80
  · rw [if_pos hone, if_pos hone]
    exact tracks_pure _
  rw [if_neg hone, if_neg hone]
  by_cases htwo : lead < 0xC0
  · rw [if_pos htwo, if_pos htwo]
    exact tracks_next.map _
  rw [if_neg htwo, if_neg htwo]
  by_cases hfour : lead < 0xE0
  · rw [if_pos hfour, if_pos hfour]
    exact tracks_next.bind fun _ => tracks_next.bind fun _ => tracks_next.map _
  rw [if_neg hfour, if_neg hfour]
  exact tracks_fail _

theorem tracks_token : Tracks d token Reader.token := by
  refine tracks_compressed.bind fun v => ?_
  cases Reader.tokenBase (v % 4) with
  | some base => exact tracks_pure _
  | none => exact tracks_fail _

theorem tracks_repeatedOnto {x : Parse α} {r : Reader α} (h : Tracks d x r) :
    ∀ (n : Nat) (read : List α), Tracks d (repeatedOnto x n read) (Reader.repeatedOnto r n read)
  | 0, read => tracks_pure read.reverse
  | n + 1, read => h.bind fun a => tracks_repeatedOnto h n (a :: read)

end Machine

end InteropTables
