import InteropTables.Bytes
import InteropTables.Proofs.Steps

/-!
# Blocks made of lists of bytes

What is read from a block is said most easily of the list of its bytes.

* `Bytes.ofList_toList`, `Bytes.extract_ofList`: blocks and lists, and parts of both;
* `Bytes.slice?_ofList`, `Bytes.word_ofList`: reads inside the list;
* `Bytes.word_append`: **the number in a part is read at the end of what stands in front of it**;
* `Bytes.word_of_drop`: a number is read where its bytes stand;
* `Bytes.word_part`: a part of a block reads like a block of its own.
-/

namespace InteropTables

namespace Bytes

/-! ## 1. Parts of lists -/

theorem ofList_toList (data : ByteArray) : ofList (toList data) = data := rfl

theorem extract_ofList (bytes : List UInt8) (start stop : Nat) :
    (ofList bytes).extract start stop = ofList ((bytes.take stop).drop start) := by
  apply ByteArray.ext
  rw [ByteArray.data_extract]
  show bytes.toArray.extract start stop = ((bytes.take stop).drop start).toArray
  rw [List.extract_toArray, List.extract_eq_take_drop, List.drop_take]

theorem slice?_ofList {bytes : List UInt8} {offset len : Nat} (h : offset + len ≤ bytes.length) :
    slice? (ofList bytes) offset len = some (ofList ((bytes.drop offset).take len)) := by
  have hsize : offset + len ≤ (ofList bytes).size := h
  rw [slice?, if_pos hsize, extract_ofList, List.drop_take, Nat.add_sub_cancel_left]

theorem slice_ofList {bytes : List UInt8} {offset len : Nat} (h : offset + len ≤ bytes.length) :
    slice (ofList bytes) offset len = .ok (ofList ((bytes.drop offset).take len)) := by
  rw [slice, slice?_ofList h]
  rfl

/-! ## 2. Numbers in lists -/

theorem word_ofList {bytes : List UInt8} {width offset : Nat}
    (h : offset + width ≤ bytes.length) :
    word (ofList bytes) width offset = .ok (littleEndian ((bytes.drop offset).take width)) := by
  rw [word, word?, slice?_ofList h]
  rfl

/-- **The number in a part is read at the end of what stands in front of it.** -/
theorem word_append (front part behind : List UInt8) :
    word (ofList (front ++ (part ++ behind))) part.length front.length
      = .ok (littleEndian part) := by
  rw [word_ofList (by simp only [List.length_append]; omega), List.drop_left, List.take_left]

/-- A number that fits its width is read where its bytes stand. -/
theorem word_of_drop {bytes behind : List UInt8} {width place n : Nat} (hn : n < wordCount width)
    (hwidth : 0 < width) (h : bytes.drop place = ofNatLE width n ++ behind) :
    word (ofList bytes) width place = .ok n := by
  have hlength := congrArg List.length h
  rw [List.length_drop, List.length_append, length_ofNatLE] at hlength
  have htake : (ofNatLE width n ++ behind).take width = ofNatLE width n :=
    List.take_left' (length_ofNatLE ..)
  rw [word_ofList (by omega), h, htake, littleEndian_ofNatLE hn]

/-- A part of a block reads like a block of its own. -/
theorem word_part {bytes : List UInt8} {start size width i : Nat}
    (hpart : start + size ≤ bytes.length) (hi : i + width ≤ size) :
    word (ofList bytes) width (start + i)
      = word (ofList ((bytes.drop start).take size)) width i := by
  have hlength : ((bytes.drop start).take size).length = size := by
    rw [List.length_take, List.length_drop]
    omega
  rw [word_ofList (by omega), word_ofList (by omega), List.drop_take, List.take_take,
    List.drop_drop, Nat.min_eq_left (by omega)]

end Bytes

end InteropTables
