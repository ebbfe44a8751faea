import InteropTables.Fault

/-!
# Reading words from bytes

Metadata is a block of bytes with numbers at known places, stored with the lowest byte first. All
reads are checked: a place beyond the end gives no number.

* `wordCount`: how many numbers so many bytes tell apart;
* `littleEndian`, `ofNatLE`: a list of bytes as a number, and a number as so many bytes;
* `littleEndian_lt`, `littleEndian_ofNatLE`, `ofNatLE_littleEndian`: the two undo each other on
  numbers that fit;
* `Bytes.slice?`, `Bytes.word?`: part of a block, and the number in part of a block;
* `Bytes.ofList`, `Bytes.toList`: the block of a list of bytes and back.
-/

namespace InteropTables

/-! ## 1. Numbers as bytes -/

/-- How many numbers a word of `width` bytes tells apart. -/
def wordCount : (width : Nat) → Nat
  | 0 => 1
  | width + 1 => 256 * wordCount width

/-- The number that a list of bytes stands for, lowest byte first. -/
def littleEndian : List UInt8 → Nat
  | [] => 0
  | b :: bs => b.toNat + 256 * littleEndian bs

/-- The low `width` bytes of a number, lowest byte first. -/
def ofNatLE : (width : Nat) → Nat → List UInt8
  | 0, _ => []
  | width + 1, n => UInt8.ofNat n :: ofNatLE width (n / 256)

@[simp] theorem length_ofNatLE (width n : Nat) : (ofNatLE width n).length = width := by
  induction width generalizing n with
  | zero => rfl
  | succ width ih => simp [ofNatLE, ih]

/-- A list of bytes makes a number that a word of as many bytes holds. -/
theorem littleEndian_lt (bs : List UInt8) : littleEndian bs < wordCount bs.length := by
  induction bs with
  | nil => simp [littleEndian, wordCount]
  | cons b bs ih =>
    have hb := b.toNat_lt
    simp only [littleEndian, List.length_cons, wordCount]
    omega

/-- **A number that fits its width is read back from its bytes.** -/
theorem littleEndian_ofNatLE {width n : Nat} (h : n < wordCount width) :
    littleEndian (ofNatLE width n) = n := by
  induction width generalizing n with
  | zero => simp only [wordCount, Nat.lt_one_iff] at h; simp [ofNatLE, littleEndian, h]
  | succ width ih =>
    rw [wordCount] at h
    have := ih (n := n / 256) (by omega)
    simp only [ofNatLE, littleEndian, this, UInt8.toNat_ofNat']
    omega

/-- Bytes are the bytes of the number they stand for. -/
theorem ofNatLE_littleEndian (bs : List UInt8) :
    ofNatLE bs.length (littleEndian bs) = bs := by
  induction bs with
  | nil => rfl
  | cons b bs ih =>
    have hb := b.toNat_lt
    have hd : (b.toNat + 256 * littleEndian bs) / 256 = littleEndian bs := by omega
    have hm : UInt8.ofNat (b.toNat + 256 * littleEndian bs) = b := by
      apply UInt8.toNat_inj.1
      rw [UInt8.toNat_ofNat']
      omega
    simp only [List.length_cons, ofNatLE, littleEndian, hd, hm, ih]

/-- The number that a word of `width` bytes stands for when its top bit is a sign. -/
def signedOfWidth (width n : Nat) : Int :=
  if 2 * n < wordCount width then n else n - wordCount width

/-! ## 2. Blocks of bytes -/

namespace Bytes

/-- The bytes of a block in order. -/
def toList (data : ByteArray) : List UInt8 :=
  data.data.toList

/-- The block of a list of bytes. -/
def ofList (bytes : List UInt8) : ByteArray :=
  ⟨bytes.toArray⟩

@[simp] theorem toList_ofList (bytes : List UInt8) : toList (ofList bytes) = bytes := rfl

@[simp] theorem size_ofList (bytes : List UInt8) : (ofList bytes).size = bytes.length := rfl

/-- The `len` bytes from `offset` on, if the block has them all. -/
def slice? (data : ByteArray) (offset len : Nat) : Option ByteArray :=
  if offset + len ≤ data.size then some (data.extract offset (offset + len)) else none

/-- The number in the `width` bytes from `offset` on, if the block has them all. -/
def word? (data : ByteArray) (width offset : Nat) : Option Nat :=
  (slice? data offset width).map fun part => littleEndian (toList part)

/-- A slice exists exactly when it ends inside the block. -/
theorem slice?_isSome {data : ByteArray} {offset len : Nat} :
    (slice? data offset len).isSome ↔ offset + len ≤ data.size := by
  unfold slice?
  split <;> simp [*]

theorem size_of_slice? {data part : ByteArray} {offset len : Nat}
    (h : slice? data offset len = some part) : part.size = len := by
  unfold slice? at h
  split at h
  · simp only [Option.some.injEq] at h
    subst h
    simp [ByteArray.size_extract]
    omega
  · simp at h

/-- A part of a block, or a failed read. -/
def slice (data : ByteArray) (offset len : Nat) : Except Fault ByteArray :=
  (slice? data offset len).elim (.error .outOfBounds) .ok

/-- A number in a block, or a failed read. -/
def word (data : ByteArray) (width offset : Nat) : Except Fault Nat :=
  (word? data width offset).elim (.error .outOfBounds) .ok

/-- The first place at or behind `start` where a zero byte stands. -/
def findZero (data : ByteArray) (start : Nat) : Option Nat :=
  if h : start < data.size then
    if data[start] = 0 then some start else findZero data (start + 1)
  else none
termination_by data.size - start

/-- The bytes of a block as hexadecimal digits, two for each byte. -/
def toHex (data : ByteArray) : String :=
  String.join ((toList data).map hexOfByte)

end Bytes

end InteropTables
