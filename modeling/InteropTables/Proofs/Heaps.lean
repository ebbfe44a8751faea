import InteropTables.Proofs.Blocks
import InteropTables.Proofs.Compressed
import InteropTables.Metadata.Heap

/-!
# Reading heaps back

A heap holds a text, or a byte string, at a place if its bytes from there on begin as the format
says. What stands before, behind, and even inside another entry does not matter, so the same bytes
may serve several entries.

* `textBytes`, `textBytes_ne_zero`: the bytes of a text, with no zero among them if no character is;
* `findZero_ofList`, `findZero_eq_none`: the first zero byte, and bytes without one;
* `HoldsText`, `StringHeap.get_of_holdsText`: **a text is read back**;
* `HoldsBlob`, `BlobHeap.get_of_holdsBlob`: **a byte string is read back**, whichever packed form
  its length has.
-/

namespace InteropTables

/-! ## 1. Bytes of texts -/

/-- The bytes of a text. -/
def textBytes (s : String) : List UInt8 :=
  s.toList.flatMap String.utf8EncodeChar

/-- The character that no text in a heap has. -/
def nul : Char := Char.ofNat 0

theorem ofList_textBytes (s : String) : Bytes.ofList (textBytes s) = s.toByteArray := by
  have h : s.toList.utf8Encode = s.toByteArray := by
    rw [← String.toByteArray_ofList, String.ofList_toList]
  rw [← h]
  apply ByteArray.ext
  rw [List.utf8Encode, List.data_toByteArray]
  rfl

theorem length_textBytes (s : String) : (textBytes s).length = s.utf8ByteSize := by
  rw [← String.size_toByteArray, ← ofList_textBytes, Bytes.size_ofList]

/-- The bytes of a character other than zero are not zero. -/
theorem utf8EncodeChar_ne_zero {c : Char} (h : c ≠ nul) :
    ∀ b ∈ String.utf8EncodeChar c, b ≠ 0 := by
  have hpos : c.val.toNat ≠ 0 := by
    intro hzero
    apply h
    apply Char.ext
    exact UInt32.toNat_inj.1 hzero
  have hlt : c.val.toNat < 0x110000 := by
    rcases c.valid with hsmall | hlarge
    · exact Nat.lt_trans hsmall (by decide)
    · exact hlarge.2
  have hbyte : ∀ n : Nat, n % 256 ≠ 0 → UInt8.ofNat n ≠ 0 := by
    intro n hn hzero
    apply hn
    rw [← UInt8.toNat_ofNat', hzero]
    rfl
  intro b hb
  simp only [String.utf8EncodeChar] at hb
  split at hb
  · rw [List.mem_singleton] at hb
    subst hb
    exact hbyte _ (by omega)
  · split at hb
    · simp only [List.mem_cons, List.not_mem_nil, or_false] at hb
      rcases hb with rfl | rfl <;> exact hbyte _ (by omega)
    · split at hb
      · simp only [List.mem_cons, List.not_mem_nil, or_false] at hb
        rcases hb with rfl | rfl | rfl <;> exact hbyte _ (by omega)
      · simp only [List.mem_cons, List.not_mem_nil, or_false] at hb
        rcases hb with rfl | rfl | rfl | rfl <;> exact hbyte _ (by omega)

theorem textBytes_ne_zero {s : String} (h : nul ∉ s.toList) : ∀ b ∈ textBytes s, b ≠ 0 := by
  intro b hb
  obtain ⟨c, hc, hb⟩ := List.mem_flatMap.1 hb
  exact utf8EncodeChar_ne_zero (fun hnul => h (hnul ▸ hc)) b hb

/-! ## 2. Texts -/

/-- Looking for a zero byte, one byte at a time. -/
theorem findZero_cons {bytes behind : List UInt8} {b : UInt8} {start : Nat}
    (h : bytes.drop start = b :: behind) :
    Bytes.findZero (Bytes.ofList bytes) start
      = if b = 0 then some start else Bytes.findZero (Bytes.ofList bytes) (start + 1) := by
  have hlt : start < bytes.length := by
    rcases Nat.lt_or_ge start bytes.length with hlt | hge
    · exact hlt
    · rw [List.drop_eq_nil_of_le hge] at h
      cases h
  have hb : bytes[start] = b := by
    rw [List.drop_eq_getElem_cons hlt] at h
    exact (List.cons.inj h).1
  rw [Bytes.findZero, dif_pos (show start < (Bytes.ofList bytes).size from hlt)]
  show (if bytes[start] = 0 then _ else _) = _
  rw [hb]

/-- The first zero byte at or behind a place. The induction is on the bytes in front of it. -/
theorem findZero_ofList {bytes behind : List UInt8} (part : List UInt8)
    (hpart : ∀ b ∈ part, b ≠ 0) :
    ∀ start, bytes.drop start = part ++ 0 :: behind →
      Bytes.findZero (Bytes.ofList bytes) start = some (start + part.length) := by
  induction part with
  | nil =>
    intro start hdrop
    rw [findZero_cons hdrop, if_pos rfl]
    rfl
  | cons b part ih =>
    intro start hdrop
    have hb := hpart b (List.mem_cons_self ..)
    have hnext : bytes.drop (start + 1) = part ++ 0 :: behind := by
      rw [← List.drop_drop, hdrop]
      rfl
    rw [findZero_cons hdrop, if_neg hb,
      ih (fun x hx => hpart x (List.mem_cons_of_mem _ hx)) _ hnext, List.length_cons,
      Nat.add_assoc, Nat.add_comm 1]

/-- Without a zero byte there is none to find. The induction is on the bytes still to look at. -/
theorem findZero_eq_none {bytes : List UInt8} (part : List UInt8) (hpart : ∀ b ∈ part, b ≠ 0) :
    ∀ start, bytes.drop start = part → Bytes.findZero (Bytes.ofList bytes) start = none := by
  induction part with
  | nil =>
    intro start hdrop
    rw [Bytes.findZero, dif_neg]
    exact Nat.not_lt.2 (List.drop_eq_nil_iff.1 hdrop)
  | cons b part ih =>
    intro start hdrop
    obtain ⟨hb, hmore⟩ := List.forall_mem_cons.1 hpart
    have hnext : bytes.drop (start + 1) = part := by
      rw [← List.drop_drop, hdrop]
      rfl
    rw [findZero_cons hdrop, if_neg hb, ih hmore _ hnext]

/-- The bytes of a heap hold a text at a place: its bytes stand there, none of them zero, and a zero
byte behind them. -/
def HoldsText (bytes : List UInt8) (index : Nat) (text : String) : Prop :=
  nul ∉ text.toList ∧ ∃ behind, bytes.drop index = textBytes text ++ 0 :: behind

/-- The zero byte at the start of a heap is the empty text. -/
theorem holdsText_start {bytes : List UInt8} (h : bytes.head? = some 0) : HoldsText bytes 0 "" := by
  cases bytes with
  | nil => cases h
  | cons b behind =>
    obtain rfl := Option.some.inj h
    exact ⟨List.not_mem_nil, behind, rfl⟩

/-- **A text is read back.** -/
theorem StringHeap.get_of_holdsText {bytes : List UInt8} {index : Nat} {text : String}
    (h : HoldsText bytes index text) : StringHeap.get ⟨Bytes.ofList bytes⟩ index = .ok text := by
  obtain ⟨hnul, behind, hdrop⟩ := h
  have hlt : index < bytes.length := by
    rcases Nat.lt_or_ge index bytes.length with hlt | hge
    · exact hlt
    · rw [List.drop_eq_nil_of_le hge] at hdrop
      exact absurd hdrop.symm (by simp)
  have hzero := findZero_ofList (textBytes text) (textBytes_ne_zero hnul) index hdrop
  have hpart : (Bytes.ofList bytes).extract index (index + (textBytes text).length)
      = text.toByteArray := by
    rw [Bytes.extract_ofList, List.drop_take, hdrop, Nat.add_sub_cancel_left, List.take_left,
      ofList_textBytes]
  have htext : String.fromUTF8? text.toByteArray = some text := by
    rw [String.fromUTF8?, dif_pos text.isValidUTF8]
    rfl
  have hfound : ((Bytes.findZero (Bytes.ofList bytes) index).bind fun stop =>
      String.fromUTF8? ((Bytes.ofList bytes).extract index stop)) = some text := by
    rw [hzero]
    show String.fromUTF8? ((Bytes.ofList bytes).extract index _) = _
    rw [hpart, htext]
  rw [StringHeap.get, if_pos (show index < (Bytes.ofList bytes).size from hlt)]
  simp only [hfound]

/-! ## 3. Byte strings -/

/-- The bytes of a heap hold a byte string at a place: its length stands there in one of the packed
forms, and its bytes behind that. -/
def HoldsBlob (bytes : List UInt8) (index : Nat) (value : List UInt8) : Prop :=
  ∃ code behind, Reader.NumberCode value.length code ∧ bytes.drop index = code ++ (value ++ behind)

/-- **A byte string is read back.** The length is read through a window of four bytes, which holds
every packed form. -/
theorem BlobHeap.get_of_holdsBlob {bytes : List UInt8} {index : Nat} {value : List UInt8}
    (h : HoldsBlob bytes index value) :
    BlobHeap.get ⟨Bytes.ofList bytes⟩ index = .ok (Bytes.ofList value) := by
  obtain ⟨code, behind, hcode, hdrop⟩ := h
  have hlength : 0 < code.length ∧ code.length ≤ BlobHeap.maxLengthSize := by
    cases hcode <;> simp only [List.length_cons, List.length_nil, maxLengthSize] <;> omega
  have hsize := congrArg List.length hdrop
  rw [List.length_drop, List.length_append, List.length_append] at hsize
  have hlt : index < bytes.length := by omega
  have hwindow : (Bytes.ofList bytes).extract index (index + BlobHeap.maxLengthSize)
      = Bytes.ofList (code ++ (value ++ behind).take (BlobHeap.maxLengthSize - code.length)) := by
    rw [Bytes.extract_ofList, List.drop_take, hdrop, Nat.add_sub_cancel_left, List.take_append,
      List.take_of_length_le hlength.2]
  have hread : Reader.compressed.run (Cursor.ofBlock (Bytes.ofList
        (code ++ (value ++ behind).take (BlobHeap.maxLengthSize - code.length))))
      = (.ok value.length,
        ⟨(value ++ behind).take (BlobHeap.maxLengthSize - code.length), 0 + code.length, 0⟩) :=
    Reader.reads_compressed hcode _ 0 0
  have hvalue : Bytes.slice (Bytes.ofList bytes) (index + code.length) value.length
      = .ok (Bytes.ofList value) := by
    rw [Bytes.slice_ofList (by omega), ← List.drop_drop, hdrop, List.drop_left, List.take_left]
  simp only [BlobHeap.get, if_pos (show index < (Bytes.ofList bytes).size from hlt), hwindow, hread,
    Nat.zero_add, bind_ok, hvalue]

end InteropTables
