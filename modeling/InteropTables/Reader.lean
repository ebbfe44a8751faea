import InteropTables.Bytes

/-!
# Reading bytes in order

Signatures are read from front to back. A `Reader` is one reading step: it takes a cursor and
gives a value or a failure, and in both cases the cursor behind the bytes it used, so that a
caller can go on after a failure.

* `Reader.next`, `peek`, `skip`: one byte; `word`: a fixed number of bytes, all of them or none;
* `Reader.compressed`: an unsigned number in one, two or four bytes, as its lead byte tells;
* `Reader.token`: a type token, packed with a two-bit table tag into a compressed number;
* `Reader.repeated`: a step a given number of times;
* `Reader.descend`: a step one nesting level deeper, if the limit allows one more level.
-/

namespace InteropTables

/-! ## 1. Cursors and steps -/

/-- A place in a sequence of bytes. -/
structure Cursor where
  /-- The bytes still to read. -/
  rest : List UInt8
  /-- How many bytes have been read. -/
  position : Nat := 0
  /-- How many nesting levels are open. -/
  depth : Nat := 0
deriving DecidableEq, Repr

namespace Cursor

/-- The cursor at the front of a block. -/
def ofBlock (data : ByteArray) : Cursor :=
  ⟨Bytes.toList data, 0, 0⟩

/-- How many bytes there are, read and unread together. -/
def size (c : Cursor) : Nat :=
  c.position + c.rest.length

/-- Whether a byte is left. -/
def hasMore (c : Cursor) : Bool :=
  !c.rest.isEmpty

end Cursor

/-- A reading step. -/
def Reader (α : Type) : Type :=
  Cursor → Except Fault α × Cursor

namespace Reader

variable {α β : Type}

/-- The outcome of a step at a cursor, and the cursor behind it. -/
def run (r : Reader α) (c : Cursor) : Except Fault α × Cursor :=
  r c

instance : Monad Reader where
  pure a := fun c => (.ok a, c)
  bind r f := fun c =>
    match r c with
    | (.ok a, c') => f a c'
    | (.error e, c') => (.error e, c')

/-- The step that fails where it stands. -/
def fail (e : Fault) : Reader α :=
  fun c => (.error e, c)

@[simp] theorem pure_apply (a : α) (c : Cursor) : (pure a : Reader α) c = (.ok a, c) := rfl

@[simp] theorem fail_apply (e : Fault) (c : Cursor) : (fail e : Reader α) c = (.error e, c) := rfl

theorem bind_apply (r : Reader α) (f : α → Reader β) (c : Cursor) :
    (r >>= f) c = match r c with
      | (.ok a, c') => f a c'
      | (.error e, c') => (.error e, c') := rfl

theorem bind_of_ok {r : Reader α} {f : α → Reader β} {c c' : Cursor} {a : α}
    (h : r c = (.ok a, c')) : (r >>= f) c = f a c' := by
  rw [bind_apply, h]

theorem bind_of_error {r : Reader α} {f : α → Reader β} {c c' : Cursor} {e : Fault}
    (h : r c = (.error e, c')) : (r >>= f) c = (.error e, c') := by
  rw [bind_apply, h]

/-! ## 2. Plain bytes -/

/-- The next byte. -/
def next : Reader UInt8 := fun c =>
  match c.rest with
  | [] => (.error .outOfBounds, c)
  | b :: rest => (.ok b, { c with rest, position := c.position + 1 })

/-- The next byte, left in place. -/
def peek : Reader UInt8 := fun c =>
  match c.rest with
  | [] => (.error .outOfBounds, c)
  | b :: _ => (.ok b, c)

/-- One byte further. -/
def skip : Reader Unit := do
  let _ ← next

/-- The number in the next `width` bytes; with fewer bytes left none of them is used. -/
def word (width : Nat) : Reader Nat := fun c =>
  let part := c.rest.take width
  if part.length = width then
    (.ok (littleEndian part),
      { c with rest := c.rest.drop width, position := c.position + width })
  else (.error .outOfBounds, c)

/-! ## 3. Compressed numbers and tokens -/

/-- An unsigned number below 2^29. The top bits of the lead byte give the length: `0` one byte,
`10` two, `110` four; the remaining bits hold the number with its highest byte first. -/
def compressed : Reader Nat := do
  let lead ← next
  if lead < 0x80 then
    return lead.toNat
  else if lead < 0xC0 then
    let b ← next
    return lead.toNat % 0x40 * 0x100 + b.toNat
  else if lead < 0xE0 then
    let b₁ ← next
    let b₂ ← next
    let b₃ ← next
    return lead.toNat % 0x20 * 0x1000000 + b₁.toNat * 0x10000 + b₂.toNat * 0x100 + b₃.toNat
  else
    fail (.malformed (.compressedLead lead))

/-- The word of the null token in the table that a two-bit tag selects. -/
def tokenBase : Nat → Option Nat
  | 0 => some 0x02000000
  | 1 => some 0x01000000
  | 2 => some 0x1B000000
  | _ => none

/-- A type token: the low two bits of a compressed number select the table of type definitions,
references or specifications, and the bits above are laid over the word of that table. -/
def token : Reader Token := do
  let v ← compressed
  match tokenBase (v % 4) with
  | some base => return ⟨UInt32.ofNat (base ||| v / 4)⟩
  | none => fail (.malformed (.compressedTag v))

/-! ## 4. Repetition and nesting -/

/-- The values of a step taken `n` times, behind those already in `read` (last one first). -/
def repeatedOnto (r : Reader α) : (n : Nat) → (read : List α) → Reader (List α)
  | 0, read => fun c => (.ok read.reverse, c)
  | n + 1, read => fun c =>
    match r c with
    | (.ok a, c') => repeatedOnto r n (a :: read) c'
    | (.error e, c') => (.error e, c')

/-- A step taken `n` times; the first failure ends the whole. -/
def repeated (r : Reader α) (n : Nat) : Reader (List α) :=
  repeatedOnto r n []

/-- One nesting level more. -/
def deepen : Reader Unit := fun c =>
  (.ok (), { c with depth := c.depth + 1 })

/-- One nesting level less. -/
def rise : Reader Unit := fun c =>
  (.ok (), { c with depth := c.depth - 1 })

/-- A step one level deeper. The level is left again whether the step succeeds or fails. -/
def descend (r : Reader α) : Reader α := fun c =>
  let (result, c') := r { c with depth := c.depth + 1 }
  (result, { c' with depth := c'.depth - 1 })

end Reader

end InteropTables
