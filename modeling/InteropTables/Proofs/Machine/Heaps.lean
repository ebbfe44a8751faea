import InteropTables.Proofs.Compressed
import InteropTables.Proofs.Machine.Headers
import InteropTables.Proofs.Machine.Parser

/-!
# Heaps on a machine of words

A text is cut out of what stands behind its place, a byte string is cut out behind its compressed
length. The library looks at no more than four bytes for the length; the machine is given all that
stands behind the place, which makes no difference.

* `textAt`, `blobAt`: the two look-ups;
* `compressed_take`: the first four bytes decide a compressed number;
* `textAt_follows`, `blobAt_follows`: **both follow the look-ups of the library**.
-/

namespace InteropTables

/-! ## 1. Compressed numbers -/

namespace Reader

/-- The first four bytes decide a compressed number. -/
theorem compressed_take (bytes : List UInt8) :
    (compressed ⟨bytes.take 4, 0, 0⟩).1 = (compressed ⟨bytes, 0, 0⟩).1 ∧
    (compressed ⟨bytes.take 4, 0, 0⟩).2.position = (compressed ⟨bytes, 0, 0⟩).2.position := by
  match bytes with
  | [] => exact ⟨rfl, rfl⟩
  | [_] => exact ⟨rfl, rfl⟩
  | [_, _] => exact ⟨rfl, rfl⟩
  | [_, _, _] => exact ⟨rfl, rfl⟩
  | b :: b₁ :: b₂ :: b₃ :: rest =>
    have hrun : ∀ tail : List UInt8, compressed ⟨b :: b₁ :: b₂ :: b₃ :: tail, 0, 0⟩
        = if b < 0x80 then (.ok b.toNat, ⟨b₁ :: b₂ :: b₃ :: tail, 1, 0⟩)
          else if b < 0xC0 then
            (.ok (b.toNat % 0x40 * 0x100 + b₁.toNat), ⟨b₂ :: b₃ :: tail, 2, 0⟩)
          else if b < 0xE0 then
            (.ok (b.toNat % 0x20 * 0x1000000 + b₁.toNat * 0x10000 + b₂.toNat * 0x100 + b₃.toNat),
              ⟨tail, 4, 0⟩)
          else (.error (.malformed (.compressedLead b)), ⟨b₁ :: b₂ :: b₃ :: tail, 1, 0⟩) := by
      intro tail
      have hnext : next ⟨b :: b₁ :: b₂ :: b₃ :: tail, 0, 0⟩
          = (.ok b, ⟨b₁ :: b₂ :: b₃ :: tail, 1, 0⟩) := rfl
      rw [compressed, bind_of_ok hnext]
      split
      · rfl
      split
      · rfl
      split
      · rfl
      · rfl
    show (compressed ⟨b :: b₁ :: b₂ :: b₃ :: [], 0, 0⟩).1 = _ ∧
      (compressed ⟨b :: b₁ :: b₂ :: b₃ :: [], 0, 0⟩).2.position = _
    rw [hrun, hrun]
    split
    · exact ⟨rfl, rfl⟩
    split
    · exact ⟨rfl, rfl⟩
    split
    · exact ⟨rfl, rfl⟩
    · exact ⟨rfl, rfl⟩

end Reader

namespace Machine

/-! ## 2. Texts -/

/-- The text at a place of a heap. -/
def textAt (heap : StringHeap) (index : Nat) : Run String :=
  if index < heap.data.size then do
    let rest ← behind heap.data index
    match (Bytes.findZero rest 0).bind fun stop => String.fromUTF8? (rest.extract 0 stop) with
    | some text => return text
    | none => .fail (.malformed (.textAt index))
  else .fail .outOfBounds

/-- **A text is looked up as the library looks it up.** -/
theorem textAt_follows (heap : StringHeap) (index : Nat) :
    Follows Eq (textAt heap index) (heap.get index) := by
  rw [textAt, StringHeap.get]
  refine .ite (fun h => ?_) fun _ => ?_
  · rw [behind_of_le (Nat.le_of_lt h), Run.pure_then]
    have hextract : ∀ stop, (heap.data.extract index heap.data.size).extract 0 stop
        = heap.data.extract index (index + stop) := fun stop => by
      rw [ByteArray.extract_extract, Nat.add_zero, extract_min]
    have hsame : ((Bytes.findZero (heap.data.extract index heap.data.size) 0).bind fun stop =>
          String.fromUTF8? ((heap.data.extract index heap.data.size).extract 0 stop))
        = (Bytes.findZero heap.data index).bind fun stop =>
          String.fromUTF8? (heap.data.extract index stop) := by
      have hzero := Bytes.findZero_behind heap.data index 0
      rw [Nat.add_zero] at hzero
      rw [← hzero, Option.bind_map]
      simp only [hextract]
      rfl
    rw [hsame]
    cases (Bytes.findZero heap.data index).bind fun stop =>
      String.fromUTF8? (heap.data.extract index stop) with
    | some text => exact follows_pure rfl
    | none => exact follows_fail _
  · exact follows_fail _

/-! ## 3. Byte strings -/

/-- A compressed length, and the place behind it. -/
def lengthAt : Parse (Nat × Nat) := do
  let length ← compressed
  let p ← Parse.get
  return (length, p.position)

/-- The byte string at a place of a heap. -/
def blobAt (heap : BlobHeap) (index : Nat) : Run ByteArray :=
  if index < heap.data.size then do
    let rest ← behind heap.data index
    let (length, position) ← lengthAt.run rest
    let start ← add 8 index position
    let stop ← add 8 start length
    if heap.data.size < stop then .fail .outOfBounds
    else part heap.data start stop
  else .fail .outOfBounds

/-- A length in front of a block, and the place behind it, which lies in the block. -/
theorem lengthAt_follows {data : ByteArray} (hdata : data.size < wordCount 4) :
    Follows (fun a n => a = (n, (Reader.compressed (Cursor.ofBlock data)).2.position) ∧
        n < Reader.compressedSpan ∧ a.2 ≤ data.size)
      (lengthAt.run data) (Reader.compressed (Cursor.ofBlock data)).1 := by
  obtain ⟨p', hx, hcursor, hreached⟩ :=
    tracks_compressed { data } (Parser.sound_ofBlock hdata) rfl
  rw [Parser.cursor_ofBlock] at hx hcursor hreached
  rcases hr : Reader.compressed (Cursor.ofBlock data) with ⟨outcome, c'⟩
  rw [hr] at hx hcursor hreached
  obtain rfl : p'.cursor = c' := hcursor
  cases outcome with
  | ok n =>
    have hrun : lengthAt.run data = pure (n, p'.position) := by
      rw [Parse.run, lengthAt, Parse.bind_apply_ok hx]
      rfl
    have hposition : p'.position ≤ data.size := by
      have hle := hreached.position
      rwa [hreached.data] at hle
    rw [hrun]
    exact follows_pure ⟨rfl, Reader.compressed_lt hr, hposition⟩
  | error e =>
    rw [Parse.run, lengthAt, Parse.bind_apply_error hx]
    exact follows_fail e

theorem library_blob (heap : BlobHeap) (index : Nat) : heap.get index =
    let result := Reader.compressed
      (Cursor.ofBlock (heap.data.extract index (index + BlobHeap.maxLengthSize)))
    if index < heap.data.size then
      result.1 >>= fun length => Bytes.slice heap.data (index + result.2.position) length
    else .error .outOfBounds := rfl

/-- **A byte string is looked up as the library looks it up.** -/
theorem blobAt_follows {heap : BlobHeap} (hheap : heap.data.size < wordCount 4) (index : Nat) :
    Follows Eq (blobAt heap index) (heap.get index) := by
  rw [blobAt, library_blob]
  dsimp only
  by_cases h : index < heap.data.size
  · have hrest : (heap.data.extract index heap.data.size).size = heap.data.size - index :=
      Bytes.size_behind
    have hfront : Cursor.ofBlock (heap.data.extract index (index + BlobHeap.maxLengthSize))
        = ⟨(Bytes.toList (heap.data.extract index heap.data.size)).take 4, 0, 0⟩ := by
      have hlist : heap.data.extract index (index + 4)
          = (heap.data.extract index heap.data.size).extract 0 4 := by
        rw [ByteArray.extract_extract, Nat.add_zero index, extract_min]
      have htake : (heap.data.extract index heap.data.size).extract 0 4 = Bytes.ofList
          (((Bytes.toList (heap.data.extract index heap.data.size)).take 4).drop 0) :=
        Bytes.extract_ofList _ 0 4
      show (⟨Bytes.toList (heap.data.extract index (index + 4)), 0, 0⟩ : Cursor) = _
      rw [hlist, htake, List.drop_zero, Bytes.toList_ofList]
    have hsame := Reader.compressed_take (Bytes.toList (heap.data.extract index heap.data.size))
    rw [if_pos h, if_pos h, behind_of_le (Nat.le_of_lt h), Run.pure_then, hfront, hsame.1, hsame.2]
    refine (lengthAt_follows (by omega)).bind fun a length _ ha => ?_
    obtain ⟨rfl, hlength, hposition⟩ := ha
    dsimp only at hposition ⊢
    have hspan : Reader.compressedSpan = 0x20000000 := rfl
    have hfour := wordCount_four
    have height := wordCount_eight
    have hcursor : (⟨Bytes.toList (heap.data.extract index heap.data.size), 0, 0⟩ : Cursor)
        = Cursor.ofBlock (heap.data.extract index heap.data.size) := rfl
    rw [hcursor]
    generalize (Reader.compressed (Cursor.ofBlock (heap.data.extract index
      heap.data.size))).2.position = position at hposition ⊢
    rw [add_of_lt (by omega), Run.pure_then, add_of_lt (by omega), Run.pure_then, Bytes.slice,
      Bytes.slice?]
    by_cases hinside : index + position + length ≤ heap.data.size
    · rw [if_neg (by omega), if_pos hinside, part_of_le (by omega) hinside]
      exact follows_pure rfl
    · rw [if_pos (by omega), if_neg hinside]
      exact follows_fail _
  · rw [if_neg h, if_neg h]
    exact follows_fail _

/-- A byte string is no longer than its heap. -/
theorem size_blob_lt {heap : BlobHeap} (hheap : heap.data.size < wordCount 4) {index : Nat}
    {blob : ByteArray} (h : heap.get index = .ok blob) : blob.size < wordCount 4 := by
  rw [library_blob] at h
  dsimp only at h
  split at h
  · cases hlength : (Reader.compressed
        (Cursor.ofBlock (heap.data.extract index (index + BlobHeap.maxLengthSize)))).1 with
    | error e =>
      rw [hlength] at h
      cases h
    | ok length =>
      rw [hlength, bind_ok] at h
      have hsize := Bytes.size_of_slice h
      have hinside := Bytes.le_of_slice h
      omega
  · cases h

end Machine

end InteropTables
