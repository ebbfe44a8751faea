import InteropTables.Proofs.Exact
import InteropTables.Proofs.Heaps
import InteropTables.Proofs.Machine.Blocks

/-!
# What heaps give back

A heap is a zero byte with entries behind it. What was put into it is found again at the place where
it was put, and of a text also every end of it that begins with a character. And whatever the bytes
of a heap are, a look-up gives nothing that does not stand there.

* `Bytes.drop_of_slice`, `Bytes.drop_of_word`, `Bytes.slice?_of_drop`: a slice, and a number, is
  what stands at its place;
* `Bytes.exists_of_findZero`: the first zero byte, and what stands in front of it;
* `StringHeap.get_eq_ok_iff`, `BlobHeap.get_eq_ok_iff`: **a look-up gives an entry exactly if the
  heap holds it at the place**;
* `heapBytes`, `entryPlace`: the bytes of a heap made of entries, and where each of them stands;
* `holdsText_heapBytes`, `holdsBlob_heapBytes`: what such a heap holds;
* `heaps_give_back`: **all of this.**
-/

namespace InteropTables

/-! ## 1. Parts of blocks -/

namespace Bytes

variable {data part : ByteArray} {offset len : Nat}

/-- A slice stands at its place. -/
theorem drop_of_slice (h : slice data offset len = .ok part) :
    (toList part).length = len ∧
      (toList data).drop offset = toList part ++ (toList data).drop (offset + len) := by
  have hle : offset + len ≤ (toList data).length := by
    rw [length_toList]
    exact le_of_slice h
  have hcut := slice_ofList hle
  rw [ofList_toList, h] at hcut
  obtain rfl := Except.ok.inj hcut
  rw [toList_ofList, List.length_take, List.length_drop, ← List.drop_drop, List.take_append_drop]
  exact ⟨by omega, rfl⟩

/-- A number stands at its place. -/
theorem drop_of_word {width n : Nat} (h : word data width offset = .ok n) :
    n < wordCount width ∧
      (toList data).drop offset = ofNatLE width n ++ (toList data).drop (offset + width) := by
  unfold word word? at h
  cases hpart : slice? data offset width with
  | none =>
    rw [hpart] at h
    cases h
  | some part =>
    rw [hpart] at h
    have hslice : slice data offset width = .ok part := by
      rw [slice, hpart]
      rfl
    obtain ⟨hlength, hdrop⟩ := drop_of_slice hslice
    obtain rfl : littleEndian (toList part) = n := Except.ok.inj h
    have hcode := ofNatLE_littleEndian (toList part)
    rw [hlength] at hcode
    refine ⟨hlength ▸ littleEndian_lt (toList part), ?_⟩
    rw [hdrop, hcode]

/-- What stands at a place can be cut out there. -/
theorem slice?_of_drop {bytes behind : List UInt8}
    (h : (toList data).drop offset = bytes ++ behind) :
    offset ≤ (toList data).length → slice? data offset bytes.length = some (ofList bytes) := by
  intro hplace
  have hlength := congrArg List.length h
  rw [List.length_drop, List.length_append] at hlength
  have hle : offset + bytes.length ≤ (toList data).length := by omega
  have hcut := slice?_ofList hle
  rwa [ofList_toList, h, List.take_left] at hcut

/-- The first zero byte at or behind a place, and what stands in front of it. The induction is on
the bytes from the place on. -/
theorem exists_of_findZero {bytes : List UInt8} {stop : Nat} (tail : List UInt8) :
    ∀ start, bytes.drop start = tail → findZero (ofList bytes) start = some stop →
      ∃ front behind, tail = front ++ 0 :: behind ∧ (∀ b ∈ front, b ≠ 0) ∧
        stop = start + front.length := by
  induction tail with
  | nil =>
    intro start hdrop hfound
    rw [findZero_eq_none [] (List.forall_mem_nil _) start hdrop] at hfound
    cases hfound
  | cons b tail ih =>
    intro start hdrop hfound
    rw [findZero_cons hdrop] at hfound
    by_cases hb : b = 0
    · subst hb
      rw [if_pos rfl] at hfound
      exact ⟨[], tail, rfl, List.forall_mem_nil _, (Option.some.inj hfound).symm⟩
    · have hnext : bytes.drop (start + 1) = tail := by
        rw [← List.drop_drop, hdrop]
        rfl
      rw [if_neg hb] at hfound
      obtain ⟨front, behind, rfl, hfront, rfl⟩ := ih (start + 1) hnext hfound
      refine ⟨b :: front, behind, rfl, List.forall_mem_cons.2 ⟨hb, hfront⟩, ?_⟩
      rw [List.length_cons]
      omega

end Bytes

/-! ## 2. Look-ups that succeed -/

/-- A text without a zero byte has no character zero. -/
theorem nul_not_mem_of_textBytes {text : String} (h : ∀ b ∈ textBytes text, b ≠ 0) :
    nul ∉ text.toList := by
  intro hnul
  have hzero : (0 : UInt8) ∈ String.utf8EncodeChar nul := by decide
  exact h 0 (List.mem_flatMap.2 ⟨nul, hnul, hzero⟩) rfl

/-- A text that was read from a block has the bytes of the block. -/
theorem toByteArray_of_fromUTF8? {block : ByteArray} {text : String}
    (h : String.fromUTF8? block = some text) : text.toByteArray = block := by
  unfold String.fromUTF8? at h
  split at h
  · rw [← Option.some.inj h]
    rfl
  · cases h

/-- **A look-up gives a text exactly if the heap holds it at the place.** -/
theorem StringHeap.get_eq_ok_iff {heap : StringHeap} {index : Nat} {text : String} :
    heap.get index = .ok text ↔ HoldsText (Bytes.toList heap.data) index text := by
  refine ⟨fun h => ?_, StringHeap.get_of_holdsText⟩
  unfold get at h
  split at h
  · split at h
    · rename_i found hfound
      obtain rfl := Except.ok.inj h
      obtain ⟨stop, hzero, htext⟩ := Option.bind_eq_some_iff.1 hfound
      obtain ⟨front, behind, hdrop, hfront, rfl⟩ :=
        Bytes.exists_of_findZero ((Bytes.toList heap.data).drop index) index rfl hzero
      have hblock : heap.data.extract index (index + front.length) = Bytes.ofList front := by
        rw [← Bytes.ofList_toList heap.data, Bytes.extract_ofList, List.drop_take, hdrop,
          Nat.add_sub_cancel_left, List.take_left]
      have hbytes : textBytes found = front := by
        have hsame := (ofList_textBytes found).trans (toByteArray_of_fromUTF8? htext)
        rw [hblock] at hsame
        exact congrArg Bytes.toList hsame
      refine ⟨nul_not_mem_of_textBytes (hbytes ▸ hfront), behind, ?_⟩
      rw [hdrop, hbytes]
    · cases h
  · cases h

/-- **A look-up gives a byte string exactly if the heap holds it at the place.** The bytes that the
length was read from are one of its packed forms, and they stand at the place, for the window that
they were read from does. -/
theorem BlobHeap.get_eq_ok_iff {heap : BlobHeap} {index : Nat} {value : ByteArray} :
    heap.get index = .ok value ↔ HoldsBlob (Bytes.toList heap.data) index (Bytes.toList value) := by
  refine ⟨fun h => ?_, BlobHeap.get_of_holdsBlob⟩
  unfold get at h
  split at h
  · dsimp only at h
    rcases hrun : Reader.compressed.run
      (Cursor.ofBlock (heap.data.extract index (index + maxLengthSize))) with ⟨_ | length, c⟩
    · rw [hrun] at h
      cases h
    · rw [hrun] at h
      dsimp only at h
      obtain ⟨code, hwindow, hplace, -, hcode⟩ := Reader.exact_compressed.place hrun
      have hposition : c.position = code.length :=
        (congrArg Cursor.position hplace).trans (Nat.zero_add _)
      rw [bind_ok, hposition] at h
      obtain ⟨hlength, hvalue⟩ := Bytes.drop_of_slice h
      have hfront : code <+: (Bytes.toList heap.data).drop index := by
        have hblock := Bytes.extract_ofList (Bytes.toList heap.data) index (index + maxLengthSize)
        rw [Bytes.ofList_toList, List.drop_take, Nat.add_sub_cancel_left] at hblock
        refine List.IsPrefix.trans ?_ (List.take_prefix maxLengthSize _)
        exact ⟨c.rest, hwindow.symm.trans (congrArg Bytes.toList hblock)⟩
      obtain ⟨tail, htail⟩ := hfront
      rw [← List.drop_drop, ← htail, List.drop_left] at hvalue
      exact ⟨code, _, hlength ▸ hcode, by rw [← htail, hvalue]⟩
  · cases h

/-- A text that a heap holds can be cut out of it. -/
theorem slice?_of_holdsText {data : ByteArray} {index : Nat} {text : String}
    (h : HoldsText (Bytes.toList data) index text) :
    Bytes.slice? data index text.utf8ByteSize = some text.toByteArray := by
  obtain ⟨-, behind, hdrop⟩ := h
  have hlength := congrArg List.length hdrop
  rw [List.length_drop, List.length_append, List.length_cons] at hlength
  rw [← length_textBytes, ← ofList_textBytes]
  exact Bytes.slice?_of_drop hdrop (by omega)

/-- A byte string that a heap holds can be cut out of it, behind the place of its length. -/
theorem exists_slice?_of_holdsBlob {data value : ByteArray} {index : Nat}
    (h : HoldsBlob (Bytes.toList data) index (Bytes.toList value)) :
    ∃ start, index < start ∧ Bytes.slice? data start value.size = some value := by
  obtain ⟨code, behind, hcode, hdrop⟩ := h
  have hpos : 0 < code.length := List.length_pos_iff.2 hcode.ne_nil
  have hlength := congrArg List.length hdrop
  rw [List.length_drop, List.length_append] at hlength
  have hvalue : (Bytes.toList data).drop (index + code.length) = Bytes.toList value ++ behind := by
    rw [← List.drop_drop, hdrop, List.drop_left]
  refine ⟨index + code.length, by omega, ?_⟩
  rw [← Bytes.length_toList, Bytes.slice?_of_drop hvalue (by omega), Bytes.ofList_toList]

/-! ## 3. Heaps made of entries -/

section Entries

variable {α : Type} (code : α → List UInt8)

/-- The bytes of a heap with given entries: a zero byte, and the entries behind it. -/
def heapBytes (entries : List α) : List UInt8 :=
  0 :: entries.flatMap code

/-- The place of an entry by its index: behind the zero byte and the entries in front. -/
def entryPlace (entries : List α) (i : Nat) : Nat :=
  (heapBytes code (entries.take i)).length

/-- The bytes of an entry stand at its place. -/
theorem drop_entryPlace {entries : List α} {i : Nat} {a : α} (h : entries[i]? = some a)
    (behind : List UInt8) :
    (heapBytes code entries ++ behind).drop (entryPlace code entries i)
      = code a ++ ((entries.drop (i + 1)).flatMap code ++ behind) := by
  obtain ⟨hi, rfl⟩ := List.getElem?_eq_some_iff.1 h
  have hsplit : heapBytes code entries
      = heapBytes code (entries.take i)
        ++ (code entries[i] ++ (entries.drop (i + 1)).flatMap code) := by
    conv_lhs => rw [← List.take_append_drop i entries, List.drop_eq_getElem_cons hi]
    rw [heapBytes, List.flatMap_append, List.flatMap_cons]
    rfl
  rw [hsplit, List.append_assoc, List.append_assoc, entryPlace, List.drop_left]

end Entries

/-- The bytes of a text in a heap: those of its characters, and a zero byte. -/
def textEntry (text : String) : List UInt8 :=
  textBytes text ++ [0]

/-- The bytes of a byte string in a heap: its length in the shortest form, and its own. -/
def blobEntry (value : List UInt8) : List UInt8 :=
  Reader.compress value.length ++ value

theorem textBytes_append (front back : String) :
    textBytes (front ++ back) = textBytes front ++ textBytes back := by
  rw [textBytes, String.toList_append, List.flatMap_append]
  rfl

/-- **A heap holds every end of its texts**, so also the texts themselves. -/
theorem holdsText_heapBytes {texts : List String} {i : Nat} {front back : String}
    (h : texts[i]? = some (front ++ back)) (hnul : nul ∉ back.toList) (behind : List UInt8) :
    HoldsText (heapBytes textEntry texts ++ behind)
      (entryPlace textEntry texts i + front.utf8ByteSize) back := by
  refine ⟨hnul, (texts.drop (i + 1)).flatMap textEntry ++ behind, ?_⟩
  rw [← List.drop_drop, drop_entryPlace textEntry h, textEntry, textBytes_append, List.append_assoc,
    List.append_assoc, ← length_textBytes, List.drop_left]
  rfl

/-- **A heap holds its byte strings.** -/
theorem holdsBlob_heapBytes {values : List (List UInt8)} {i : Nat} {value : List UInt8}
    (h : values[i]? = some value) (hlength : value.length < Reader.compressedSpan)
    (behind : List UInt8) :
    HoldsBlob (heapBytes blobEntry values ++ behind) (entryPlace blobEntry values i) value := by
  refine ⟨Reader.compress value.length, (values.drop (i + 1)).flatMap blobEntry ++ behind,
    Reader.numberCode_compress hlength, ?_⟩
  rw [drop_entryPlace blobEntry h, blobEntry, List.append_assoc]

/-! ## 4. Both heaps -/

/-- **Heaps give back what was put into them, and nothing from outside.** A heap made of texts, with
any bytes behind it, gives each text at its place, and every end of a text behind as many bytes as
the characters in front of it take. A heap made of byte strings gives each of them at its place,
however many bytes its length takes. And what any heap gives at any place can be cut out of its
bytes, at that place or behind the length that stands there. -/
theorem heaps_give_back (texts : List String) (hnul : ∀ text ∈ texts, nul ∉ text.toList)
    (values : List (List UInt8)) (hshort : ∀ value ∈ values, value.length < Reader.compressedSpan)
    (behind : List UInt8) :
    (∃ heap, StringHeap.ofBytes (Bytes.ofList (heapBytes textEntry texts ++ behind)) = .ok heap ∧
      ∀ i text, texts[i]? = some text →
        heap.get (entryPlace textEntry texts i) = .ok text ∧
        ∀ front back, front ++ back = text →
          heap.get (entryPlace textEntry texts i + front.utf8ByteSize) = .ok back) ∧
    (∃ heap, BlobHeap.ofBytes (Bytes.ofList (heapBytes blobEntry values ++ behind)) = .ok heap ∧
      ∀ i value, values[i]? = some value →
        heap.get (entryPlace blobEntry values i) = .ok (Bytes.ofList value)) ∧
    (∀ (heap : StringHeap) index text, heap.get index = .ok text →
      Bytes.slice? heap.data index text.utf8ByteSize = some text.toByteArray) ∧
    ∀ (heap : BlobHeap) index value, heap.get index = .ok value →
      ∃ start, index < start ∧ Bytes.slice? heap.data start value.size = some value := by
  have hends : ∀ i front back, texts[i]? = some (front ++ back) →
      StringHeap.get ⟨Bytes.ofList (heapBytes textEntry texts ++ behind)⟩
        (entryPlace textEntry texts i + front.utf8ByteSize) = .ok back := by
    intro i front back hi
    have htext := hnul _ (List.mem_of_getElem? hi)
    rw [String.toList_append, List.mem_append, not_or] at htext
    exact StringHeap.get_of_holdsText (holdsText_heapBytes hi htext.2 behind)
  refine ⟨⟨_, rfl, fun i text hi => ⟨?_, ?_⟩⟩, ⟨_, rfl, fun i value hi => ?_⟩, ?_, ?_⟩
  · exact hends i "" text (by rwa [String.empty_append])
  · rintro front back rfl
    exact hends i front back hi
  · have hlength := hshort value (List.mem_of_getElem? hi)
    exact BlobHeap.get_of_holdsBlob (holdsBlob_heapBytes hi hlength behind)
  · exact fun heap index text h => slice?_of_holdsText (StringHeap.get_eq_ok_iff.1 h)
  · exact fun heap index value h => exists_slice?_of_holdsBlob (BlobHeap.get_eq_ok_iff.1 h)

/-- Two texts, one of them empty, and two byte strings, the second with a length of two bytes. -/
theorem heaps_give_back_umlaut :
    (∀ text ∈ ["Größe", ""], nul ∉ text.toList) ∧
    (∀ value ∈ [[], List.replicate 0x80 (7 : UInt8)], value.length < Reader.compressedSpan) ∧
    ∃ texts blobs,
      StringHeap.ofBytes (Bytes.ofList (heapBytes textEntry ["Größe", ""] ++ [7])) = .ok texts ∧
      BlobHeap.ofBytes
        (Bytes.ofList (heapBytes blobEntry [[], List.replicate 0x80 7] ++ [7])) = .ok blobs ∧
      texts.get 1 = .ok "Größe" ∧ texts.get 5 = .ok "ße" ∧ texts.get 9 = .ok "" ∧
      blobs.get 2 = .ok (Bytes.ofList (List.replicate 0x80 7)) := by
  have hnul : ∀ text ∈ ["Größe", ""], nul ∉ text.toList := by decide
  have hshort : ∀ value ∈ [[], List.replicate 0x80 (7 : UInt8)],
      value.length < Reader.compressedSpan := by
    refine List.forall_mem_cons.2 ⟨by decide, List.forall_mem_singleton.2 ?_⟩
    rw [List.length_replicate]
    decide
  obtain ⟨⟨texts, htexts, hget⟩, ⟨blobs, hblobs, hblob⟩, -, -⟩ :=
    heaps_give_back ["Größe", ""] hnul [[], List.replicate 0x80 7] hshort [7]
  refine ⟨hnul, hshort, texts, blobs, htexts, hblobs, (hget 0 _ rfl).1, ?_, (hget 1 _ rfl).1,
    hblob 1 _ rfl⟩
  exact (hget 0 _ rfl).2 "Grö" "ße" rfl

end InteropTables
