import InteropTables.Proofs.Blocks
import InteropTables.Proofs.Machine.Run
import InteropTables.Text.Lossy

/-!
# Reading blocks on a machine of words

Places in a block are numbers of eight bytes. A read advances its place, and the sum must not leave
the word; the bytes of a number are cut out of the block, and the cut must lie inside.

* `readAt`: the number at a place, and the place behind it; `cut`: so many bytes from a place on;
* `readAt_follows`, `cut_follows`: **both follow the checked reads of the library**;
* `Bytes.word_of_le`, `Bytes.number_lt`: what a read inside a block gives;
* `Bytes.number_behind`, `Bytes.findZero_behind`: reading in what stands behind a place;
* `Lossy.utf8ByteSize_decode_le`: damaged text does not grow beyond four times its bytes.
-/

namespace InteropTables

/-! ## 1. Numbers in blocks -/

namespace Bytes

/-- The number that stands at a place of a block. -/
def number (data : ByteArray) (width offset : Nat) : Nat :=
  littleEndian (((toList data).drop offset).take width)

variable {data : ByteArray} {width offset start : Nat}

theorem length_toList (data : ByteArray) : (toList data).length = data.size := by
  cases data
  rfl

theorem littleEndian_extract (data : ByteArray) (width offset : Nat) :
    littleEndian (toList (data.extract offset (offset + width))) = number data width offset := by
  have h : data.extract offset (offset + width)
      = ofList (((toList data).take (offset + width)).drop offset) :=
    extract_ofList (toList data) offset (offset + width)
  rw [h, toList_ofList, List.drop_take, Nat.add_sub_cancel_left]
  rfl

theorem word_of_le (h : offset + width ≤ data.size) :
    word data width offset = .ok (number data width offset) := by
  have hlength : offset + width ≤ (toList data).length := by
    rw [length_toList]
    exact h
  exact word_ofList hlength

theorem word_of_lt (h : data.size < offset + width) :
    word data width offset = .error .outOfBounds := by
  rw [word, word?, slice?, if_neg (Nat.not_le_of_lt h)]
  rfl

theorem number_lt (h : offset + width ≤ data.size) :
    number data width offset < wordCount width := by
  have hlength : (((toList data).drop offset).take width).length = width := by
    rw [List.length_take, List.length_drop, length_toList]
    omega
  have hlt := littleEndian_lt (((toList data).drop offset).take width)
  rwa [hlength] at hlt

/-- What stands behind a place is read like a block of its own. -/
theorem number_behind :
    number (data.extract start data.size) width offset = number data width (start + offset) := by
  have hextract : toList (data.extract start data.size) = (toList data).drop start := by
    have hlist : data.extract start data.size
        = ofList (((toList data).take data.size).drop start) :=
      extract_ofList (toList data) start data.size
    rw [hlist, toList_ofList, List.take_of_length_le (Nat.le_of_eq (length_toList data))]
  rw [number, hextract, List.drop_drop]
  rfl

theorem size_behind : (data.extract start data.size).size = data.size - start := by
  rw [ByteArray.size_extract]
  omega

/-- A zero byte behind a place is one of the whole block. -/
theorem findZero_behind (data : ByteArray) (start i : Nat) :
    (findZero (data.extract start data.size) i).map (start + ·) = findZero data (start + i) := by
  rw [findZero, findZero.eq_def data]
  have hsize : (data.extract start data.size).size = data.size - start := size_behind
  by_cases h : start + i < data.size
  · have hi : i < (data.extract start data.size).size := by omega
    rw [dif_pos h, dif_pos hi, ByteArray.getElem_extract]
    split
    · rfl
    · exact findZero_behind data start (i + 1)
  · rw [dif_neg h, dif_neg (by omega)]
    rfl
termination_by data.size - (start + i)

theorem findZero_lt {data : ByteArray} {start stop : Nat} (h : findZero data start = some stop) :
    start ≤ stop ∧ stop < data.size := by
  rw [findZero] at h
  split at h
  · rename_i hlt
    split at h
    · obtain rfl := Option.some.inj h
      exact ⟨Nat.le_refl _, hlt⟩
    · obtain ⟨hle, hstop⟩ := findZero_lt h
      exact ⟨Nat.le_of_succ_le hle, hstop⟩
  · cases h
termination_by data.size - start

theorem le_of_slice {found : ByteArray} {len : Nat} (h : slice data offset len = .ok found) :
    offset + len ≤ data.size := by
  rw [slice, slice?] at h
  split at h
  · assumption
  · cases h

theorem size_of_slice {found : ByteArray} {len : Nat}
    (h : slice data offset len = .ok found) :
    found.size = len := by
  rw [slice] at h
  cases hslice : slice? data offset len with
  | none =>
    rw [hslice] at h
    cases h
  | some part =>
    rw [hslice] at h
    obtain rfl := Except.ok.inj h
    exact size_of_slice? hslice

end Bytes

/-! ## 2. Damaged text -/

namespace Lossy

theorem utf8ByteSize_ofList_cons (c : Char) (cs : List Char) :
    (String.ofList (c :: cs)).utf8ByteSize = c.utf8Size + (String.ofList cs).utf8ByteSize := by
  have h : String.ofList (c :: cs) = String.singleton c ++ String.ofList cs := by
    apply String.ext
    simp
  rw [h, String.utf8ByteSize_append, String.utf8ByteSize_singleton]

theorem utf8ByteSize_ofList_append (cs ds : List Char) :
    (String.ofList (cs ++ ds)).utf8ByteSize
      = (String.ofList cs).utf8ByteSize + (String.ofList ds).utf8ByteSize := by
  induction cs with
  | nil => simp
  | cons c cs ih =>
    rw [List.cons_append, utf8ByteSize_ofList_cons, utf8ByteSize_ofList_cons, ih, Nat.add_assoc]

/-- Every character takes at least one byte of the block and at most four of the text. -/
theorem utf8ByteSize_decodeFrom_le (data : ByteArray) (i : Nat) (read : List Char) :
    (String.ofList (decodeFrom data i read)).utf8ByteSize
      ≤ (String.ofList read.reverse).utf8ByteSize + 4 * (data.size - i) := by
  have hcons : ∀ c : Char, (String.ofList (c :: read).reverse).utf8ByteSize
      ≤ (String.ofList read.reverse).utf8ByteSize + 4 := by
    intro c
    have hempty : (String.ofList []).utf8ByteSize = 0 := by simp
    rw [List.reverse_cons, utf8ByteSize_ofList_append, utf8ByteSize_ofList_cons, hempty]
    have := c.utf8Size_le_four
    omega
  rw [decodeFrom]
  split
  · rename_i h
    split
    · rename_i c _
      have hpos := c.utf8Size_pos
      have hmore := utf8ByteSize_decodeFrom_le data (i + c.utf8Size) (c :: read)
      have := hcons c
      omega
    · have hpos := damaged_pos data[i] data[i + 1]? data[i + 2]?
      have hmore := utf8ByteSize_decodeFrom_le data
        (i + damaged data[i] data[i + 1]? data[i + 2]?) (replacement :: read)
      have := hcons replacement
      omega
  · exact Nat.le_add_right _ _
termination_by data.size - i

theorem utf8ByteSize_decode_le (data : ByteArray) :
    (decode data).utf8ByteSize ≤ 4 * data.size := by
  have h := utf8ByteSize_decodeFrom_le data 0 []
  have hempty : (String.ofList ([] : List Char).reverse).utf8ByteSize = 0 := by simp
  rw [hempty, Nat.zero_add, Nat.sub_zero] at h
  exact h

end Lossy

/-! ## 3. Reads that may trap -/

namespace Machine

/-- The number in the `width` bytes at a place, and the place behind it. -/
def readAt (data : ByteArray) (width offset : Nat) : Run (Nat × Nat) :=
  if wordCount 8 ≤ offset + width ∨ data.size < offset + width then .fail .outOfBounds
  else do
    let bytes ← part data offset (offset + width)
    if bytes.size = width then return (littleEndian (Bytes.toList bytes), offset + width)
    else .fail .outOfBounds

/-- The `len` bytes at a place. -/
def cut (data : ByteArray) (offset len : Nat) : Run ByteArray :=
  if wordCount 8 ≤ offset + len ∨ data.size < offset + len then .fail .outOfBounds
  else part data offset (offset + len)

variable {data : ByteArray} {width offset len : Nat}

theorem readAt_of_le (hdata : data.size < wordCount 8) (h : offset + width ≤ data.size) :
    readAt data width offset = pure (Bytes.number data width offset, offset + width) := by
  have hinside : ¬ (wordCount 8 ≤ offset + width ∨ data.size < offset + width) := by omega
  have hsize : (data.extract offset (offset + width)).size = width := by
    rw [ByteArray.size_extract]
    omega
  rw [readAt, if_neg hinside, part_of_le (Nat.le_add_right _ _) h, Run.pure_then, if_pos hsize,
    Bytes.littleEndian_extract]

theorem readAt_of_lt (h : data.size < offset + width) :
    readAt data width offset = .fail .outOfBounds :=
  if_pos (Or.inr h)

/-- **A read on the machine follows the checked read**, and stands behind it. -/
theorem readAt_follows (hdata : data.size < wordCount 8) (width offset : Nat) :
    Follows (fun a n => a = (n, offset + width) ∧ n < wordCount width ∧ offset + width ≤ data.size)
      (readAt data width offset) (Bytes.word data width offset) := by
  by_cases h : offset + width ≤ data.size
  · rw [readAt_of_le hdata h, Bytes.word_of_le h]
    exact follows_pure ⟨rfl, Bytes.number_lt h, h⟩
  · rw [readAt_of_lt (by omega), Bytes.word_of_lt (by omega)]
    exact follows_fail _

/-- **A cut on the machine follows the checked cut**, as long as its end is a number of eight
bytes. -/
theorem cut_follows (hstop : offset + len < wordCount 8) :
    Follows Eq (cut data offset len) (Bytes.slice data offset len) := by
  by_cases h : offset + len ≤ data.size
  · have hinside : ¬ (wordCount 8 ≤ offset + len ∨ data.size < offset + len) := by omega
    rw [cut, if_neg hinside, part_of_le (Nat.le_add_right _ _) h, Bytes.slice, Bytes.slice?,
      if_pos h]
    exact follows_pure rfl
  · rw [cut, if_pos (Or.inr (by omega)), Bytes.slice, Bytes.slice?, if_neg h]
    exact follows_fail _

end Machine

end InteropTables
