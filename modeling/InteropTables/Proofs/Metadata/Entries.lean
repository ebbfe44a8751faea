import InteropTables.Metadata.Root
import InteropTables.Proofs.HeapContents

/-!
# Entries by their bytes

A directory entry holds its name as bytes, and the entry that is read holds the text for them. Text
for damaged bytes takes as many bytes as they do, or more. The place behind an entry is told from
the text, so it may lie behind the place where the entry ends.

* `Lossy.size_le_utf8ByteSize_decode`: **text takes no fewer bytes than it was made of**;
* `Lossy.decode_textBytes`: **valid text comes out as it is**;
* `RawEntry`, `RawEntry.entry`: an entry by the bytes of its name, and what is read of it;
* `StreamEntry.read_eq_ok_iff`: **what is read stands there**;
* `RawEntry.Keeps`, `RawEntry.keeps_iff`: the place behind the entry is told right;
* `StreamEntry.Inside`, `checkEntry_eq_ok_iff`: the entries that lie inside the metadata;
* `Walk`, `readEntriesOnto_eq_ok_iff`: **the entries that are read, each with its place**;
* `walk_standing_iff`: **a directory is walked as it stands exactly if no place is told wrong.**
-/

namespace InteropTables

/-! ## 1. Text for bytes -/

namespace Lossy

/-- A damaged stretch takes no more bytes than the character that stands for it. -/
theorem damaged_le (lead : UInt8) (second third : Option UInt8) :
    damaged lead second third ≤ replacement.utf8Size := by
  have hsize : replacement.utf8Size = 3 := by decide
  rw [hsize]
  unfold damaged
  split
  · split
    · split
      · split <;> omega
      · omega
    · omega
  · omega

/-- The induction is on the bytes still to look at; every step puts a character in front of which no
more bytes stand than it has itself. -/
theorem size_le_decodeFrom (data : ByteArray) (i : Nat) (read : List Char) :
    (String.ofList read.reverse).utf8ByteSize + (data.size - i)
      ≤ (String.ofList (decodeFrom data i read)).utf8ByteSize := by
  have hcons : ∀ c : Char, (String.ofList (c :: read).reverse).utf8ByteSize
      = (String.ofList read.reverse).utf8ByteSize + c.utf8Size := by
    intro c
    rw [List.reverse_cons, utf8ByteSize_ofList_append, utf8ByteSize_ofList_cons]
    rfl
  rw [decodeFrom]
  split
  · split
    · rename_i c _
      have hpos := c.utf8Size_pos
      have hmore := size_le_decodeFrom data (i + c.utf8Size) (c :: read)
      rw [hcons] at hmore
      omega
    · have hpos := damaged_pos data[i] data[i + 1]? data[i + 2]?
      have hle := damaged_le data[i] data[i + 1]? data[i + 2]?
      have hmore := size_le_decodeFrom data
        (i + damaged data[i] data[i + 1]? data[i + 2]?) (replacement :: read)
      rw [hcons] at hmore
      omega
  · omega
termination_by data.size - i

/-- **Text takes no fewer bytes than it was made of.** -/
theorem size_le_utf8ByteSize_decode (data : ByteArray) :
    data.size ≤ (decode data).utf8ByteSize := by
  have h := size_le_decodeFrom data 0 []
  rw [Nat.sub_zero] at h
  exact Nat.le_trans (Nat.le_add_left ..) h

/-- A character that stands at a place is found there. -/
theorem utf8DecodeChar?_append (front behind : List UInt8) (c : Char) :
    (Bytes.ofList (front ++ (String.utf8EncodeChar c ++ behind))).utf8DecodeChar? front.length
      = some c := by
  have hrest : (Bytes.ofList (front ++ (String.utf8EncodeChar c ++ behind))).extract front.length
      (Bytes.ofList (front ++ (String.utf8EncodeChar c ++ behind))).size
      = (String.utf8EncodeChar c).toByteArray ++ Bytes.ofList behind := by
    rw [Bytes.extract_ofList, Bytes.size_ofList, List.take_length, List.drop_left]
    apply ByteArray.ext
    rw [ByteArray.data_append, List.data_toByteArray]
    exact (List.append_toArray ..).symm
  rw [ByteArray.utf8DecodeChar?_eq_utf8DecodeChar?_extract, hrest,
    ByteArray.utf8DecodeChar?_utf8EncodeChar_append]

/-- The characters are found one behind the other. The induction is on those still to find, and the
place moves on by the bytes of each. -/
theorem decodeFrom_chars (cs : List Char) : ∀ (front : List UInt8) (read : List Char),
    decodeFrom (Bytes.ofList (front ++ cs.flatMap String.utf8EncodeChar)) front.length read
      = read.reverse ++ cs := by
  induction cs with
  | nil =>
    intro front read
    rw [List.flatMap_nil, List.append_nil, List.append_nil, decodeFrom, dif_neg]
    exact Nat.lt_irrefl _
  | cons c cs ih =>
    intro front read
    have hlength : (String.utf8EncodeChar c).length = c.utf8Size := String.length_utf8EncodeChar c
    have hpos := c.utf8Size_pos
    rw [List.flatMap_cons, decodeFrom, dif_pos]
    · rw [utf8DecodeChar?_append]
      dsimp only
      have hnext := ih (front ++ String.utf8EncodeChar c) (c :: read)
      rw [List.length_append, hlength, List.append_assoc] at hnext
      rw [hnext, List.reverse_cons, List.append_assoc, List.singleton_append]
    · rw [Bytes.size_ofList, List.length_append, List.length_append]
      omega

/-- **Valid text comes out as it is.** -/
theorem decode_textBytes (s : String) : decode (Bytes.ofList (textBytes s)) = s := by
  have h := decodeFrom_chars s.toList [] []
  rw [List.nil_append, List.reverse_nil, List.nil_append] at h
  exact (congrArg String.ofList h).trans String.ofList_toList

end Lossy

/-! ## 2. One entry -/

/-- An entry by the bytes of its name. -/
structure RawEntry where
  offset : Nat
  size : Nat
  /-- The bytes in front of the zero byte that ends the name. -/
  name : List UInt8
deriving DecidableEq, Repr

namespace RawEntry

/-- An entry that can be read: two words, and a short name that is not empty and has no zero byte in
it. -/
structure Valid (raw : RawEntry) : Prop where
  offset : raw.offset < wordCount 4
  size : raw.size < wordCount 4
  name_pos : 0 < raw.name.length
  name_lt : raw.name.length < StreamEntry.maxNameSize
  no_zero : ∀ b ∈ raw.name, b ≠ 0

/-- What is read of an entry. -/
def entry (raw : RawEntry) : StreamEntry :=
  ⟨raw.offset, raw.size, Lossy.decode (Bytes.ofList raw.name)⟩

/-- The bytes that an entry takes in a directory: two words, and the name with a zero byte, filled
up to whole words. -/
def occupied (raw : RawEntry) : Nat :=
  8 + (raw.name.length + 1 + 3) / 4 * 4

/-- The bytes of an entry. -/
def bytes (raw : RawEntry) : List UInt8 :=
  ofNatLE 4 raw.offset ++ (ofNatLE 4 raw.size ++
    (raw.name ++ List.replicate (4 - raw.name.length % 4) 0))

/-- The entry stands at a place, up to the zero byte behind its name. -/
def StandsAt (raw : RawEntry) (bytes : List UInt8) (place : Nat) : Prop :=
  ∃ behind, bytes.drop place
    = ofNatLE 4 raw.offset ++ (ofNatLE 4 raw.size ++ (raw.name ++ 0 :: behind))

theorem length_bytes (raw : RawEntry) : raw.bytes.length = raw.occupied := by
  simp only [bytes, List.length_append, length_ofNatLE, List.length_replicate, occupied]
  omega

theorem standsAt_of_drop {raw : RawEntry} {bytes behind : List UInt8} {place : Nat}
    (h : bytes.drop place = raw.bytes ++ behind) : raw.StandsAt bytes place := by
  obtain ⟨n, hn⟩ : ∃ n, 4 - raw.name.length % 4 = n + 1 :=
    Nat.exists_eq_add_one.2 (Nat.sub_pos_of_lt (Nat.mod_lt _ (by decide)))
  refine ⟨List.replicate n 0 ++ behind, ?_⟩
  rw [h, RawEntry.bytes, hn, List.replicate_succ]
  simp only [List.append_assoc, List.cons_append]

end RawEntry

namespace StreamEntry

/-- The bytes in which the end of a name is looked for. -/
theorem extract_nameArea (bytes : List UInt8) (place : Nat) :
    (Bytes.ofList bytes).extract (place + 8) (place + 8 + maxNameSize)
      = Bytes.ofList ((bytes.drop (place + 8)).take maxNameSize) := by
  rw [Bytes.extract_ofList, List.drop_take, Nat.add_sub_cancel_left]

/-- What is read stands at the place. -/
theorem exists_raw_of_read {bytes : List UInt8} {place : Nat} {e : StreamEntry}
    (h : read (Bytes.ofList bytes) place = .ok e) :
    ∃ raw : RawEntry, raw.Valid ∧ raw.StandsAt bytes place ∧ e = raw.entry := by
  unfold read at h
  rw [extract_nameArea] at h
  split at h
  · cases h
  obtain ⟨offset, hoffset, h⟩ := exists_of_bind_ok h
  obtain ⟨size, hsize, h⟩ := exists_of_bind_ok h
  dsimp only at h
  split at h
  · cases h
  · cases h
  rename_i length hpos hzero
  obtain rfl := Except.ok.inj h
  obtain ⟨hoffset, hfirst⟩ := Bytes.drop_of_word hoffset
  obtain ⟨hsize, hsecond⟩ := Bytes.drop_of_word hsize
  obtain ⟨front, behind, hpart, hfront, rfl⟩ := Bytes.exists_of_findZero _ 0 rfl hzero
  rw [List.drop_zero] at hpart
  rw [Nat.zero_add] at hpos ⊢
  have hlt := congrArg List.length hpart
  rw [List.length_append, List.length_cons, List.length_take] at hlt
  refine ⟨⟨offset, size, front⟩, ⟨hoffset, hsize, Nat.pos_of_ne_zero hpos, ?_, hfront⟩,
    ⟨behind ++ (bytes.drop (place + 8)).drop maxNameSize, ?_⟩, ?_⟩
  · show front.length < maxNameSize
    omega
  · have hname : bytes.drop (place + 8)
        = front ++ 0 :: (behind ++ (bytes.drop (place + 8)).drop maxNameSize) := by
      conv_lhs => rw [← List.take_append_drop maxNameSize (bytes.drop (place + 8)), hpart]
      rw [List.append_assoc, List.cons_append]
    rw [← hname]
    exact hfirst.trans (congrArg _ hsecond)
  · have hcut : (Bytes.ofList ((bytes.drop (place + 8)).take maxNameSize)).extract 0 front.length
        = Bytes.ofList front := by
      rw [Bytes.extract_ofList, hpart, List.take_left, List.drop_zero]
    rw [hcut]
    rfl

/-- What stands at a place is read there. -/
theorem read_of_standsAt {bytes : List UInt8} {place : Nat} {raw : RawEntry} (hvalid : raw.Valid)
    (h : raw.StandsAt bytes place) : read (Bytes.ofList bytes) place = .ok raw.entry := by
  obtain ⟨offset, size, name⟩ := raw
  obtain ⟨behind, hstands⟩ := h
  obtain ⟨hoffset, hsize, hpos, hlt, hname⟩ := hvalid
  dsimp only at hoffset hsize hpos hlt hname hstands
  have hlength := congrArg List.length hstands
  simp only [List.length_drop, List.length_append, length_ofNatLE, List.length_cons] at hlength
  have hlong : ¬ (Bytes.ofList bytes).size < place + 9 := by
    rw [Bytes.size_ofList]
    omega
  have hsecond : bytes.drop (place + 4) = ofNatLE 4 size ++ (name ++ 0 :: behind) := by
    rw [← List.drop_drop, hstands]
    rfl
  have hthird : bytes.drop (place + 8) = name ++ 0 :: behind := by
    rw [← List.drop_drop, hstands]
    rfl
  obtain ⟨n, hn⟩ : ∃ n, name.length = n + 1 := Nat.exists_eq_add_one.2 hpos
  obtain ⟨m, hm⟩ : ∃ m, maxNameSize - name.length = m + 1 :=
    Nat.exists_eq_add_one.2 (Nat.sub_pos_of_lt hlt)
  have hpart : (bytes.drop (place + 8)).take maxNameSize = name ++ 0 :: behind.take m := by
    rw [hthird, List.take_append, List.take_of_length_le (Nat.le_of_lt hlt), hm,
      List.take_succ_cons]
  have hzero : Bytes.findZero (Bytes.ofList (name ++ 0 :: behind.take m)) 0 = some (n + 1) := by
    rw [findZero_ofList name hname 0 rfl, Nat.zero_add, hn]
  have hcut : (Bytes.ofList (name ++ 0 :: behind.take m)).extract 0 (n + 1)
      = Bytes.ofList name := by
    rw [Bytes.extract_ofList, ← hn, List.take_left, List.drop_zero]
  unfold read
  rw [extract_nameArea]
  simp only [if_neg hlong, Bytes.word_of_drop hoffset (by decide) hstands,
    Bytes.word_of_drop hsize (by decide) hsecond, hpart, hzero, hcut, bind_ok]
  rfl

/-- **What is read stands there**, and what stands there is read. -/
theorem read_eq_ok_iff {bytes : List UInt8} {place : Nat} {e : StreamEntry} :
    read (Bytes.ofList bytes) place = .ok e ↔
      ∃ raw : RawEntry, raw.Valid ∧ raw.StandsAt bytes place ∧ e = raw.entry := by
  refine ⟨exists_raw_of_read, ?_⟩
  rintro ⟨raw, hvalid, hstands, rfl⟩
  exact read_of_standsAt hvalid hstands

end StreamEntry

/-! ## 3. The place behind an entry -/

namespace RawEntry

/-- The place behind the entry is told right: the text of the name takes as many words as its
bytes. -/
def Keeps (raw : RawEntry) : Prop :=
  raw.entry.encodedSize = raw.occupied

instance (raw : RawEntry) : Decidable raw.Keeps :=
  inferInstanceAs (Decidable (_ = _))

/-- The place behind an entry is never told too early. -/
theorem occupied_le (raw : RawEntry) : raw.occupied ≤ raw.entry.encodedSize := by
  have hle := Lossy.size_le_utf8ByteSize_decode (Bytes.ofList raw.name)
  rw [Bytes.size_ofList] at hle
  show 8 + _ ≤ 8 + ((Lossy.decode (Bytes.ofList raw.name)).utf8ByteSize + 1 + 3) / 4 * 4
  omega

theorem keeps_iff {raw : RawEntry} :
    raw.Keeps ↔ raw.entry.name.utf8ByteSize / 4 = raw.name.length / 4 := by
  show 8 + (raw.entry.name.utf8ByteSize + 1 + 3) / 4 * 4 = 8 + _ ↔ _
  omega

/-- A name that is text is as long as its bytes. -/
theorem keeps_of_text {raw : RawEntry} {text : String} (h : raw.name = textBytes text) :
    raw.Keeps := by
  rw [keeps_iff, entry, h, Lossy.decode_textBytes, length_textBytes]

end RawEntry

/-! ## 4. Walks -/

/-- A stream lies inside metadata of a given size, and a word holds the place where it ends. -/
structure StreamEntry.Inside (e : StreamEntry) (limit : Nat) : Prop where
  no_overflow : e.offset + e.size < wordCount 4
  le_limit : e.offset + e.size ≤ limit

/-- In metadata with a size that a word holds, a stream lies inside when it ends there. -/
theorem StreamEntry.inside_iff {e : StreamEntry} {limit : Nat} (h : limit < wordCount 4) :
    e.Inside limit ↔ e.offset + e.size ≤ limit :=
  ⟨Inside.le_limit, fun hle => ⟨Nat.lt_of_le_of_lt hle h, hle⟩⟩

namespace MetadataRoot

theorem checkEntry_eq_ok_iff {limit : Nat} {e : StreamEntry} :
    checkEntry limit e = .ok () ↔ e.Inside limit := by
  unfold checkEntry
  split
  · rename_i hover
    exact ⟨fun h => (nomatch h), fun h => absurd h.no_overflow (Nat.not_lt.2 hover)⟩
  · rename_i hword
    split
    · rename_i hinside
      exact ⟨fun _ => ⟨Nat.lt_of_not_le hword, hinside⟩, fun _ => rfl⟩
    · rename_i houtside
      exact ⟨fun h => (nomatch h), fun h => absurd h.le_limit houtside⟩

/-- The entries that are read one behind the other from a place on, each with its own place: all of
them lie inside the metadata, and the next place is told from the text of the name. -/
inductive Walk (data : ByteArray) : (place : Nat) → List (Nat × StreamEntry) → Prop where
  | done (place : Nat) : Walk data place []
  | next {place : Nat} {e : StreamEntry} {more : List (Nat × StreamEntry)}
    (hread : StreamEntry.read data place = .ok e) (hinside : e.Inside data.size)
    (hmore : Walk data (place + e.encodedSize) more) : Walk data place ((place, e) :: more)

/-- A walk begins at its place. -/
theorem Walk.place_eq {data : ByteArray} {place first : Nat} {e : StreamEntry}
    {more : List (Nat × StreamEntry)} (h : Walk data place ((first, e) :: more)) :
    first = place := by
  cases h with
  | next _ _ _ => rfl

/-- The entries of a walk lie inside the metadata. -/
theorem Walk.inside {data : ByteArray} {place : Nat} {steps : List (Nat × StreamEntry)}
    (h : Walk data place steps) : ∀ step ∈ steps, step.2.Inside data.size := by
  induction h with
  | done _ => exact List.forall_mem_nil _
  | next _ hinside _ ih => exact List.forall_mem_cons.2 ⟨hinside, ih⟩

/-- **The entries that are read are those of a walk.** -/
theorem readEntriesOnto_eq_ok_iff {data : ByteArray} {count : Nat} :
    ∀ {place : Nat} {before found : List StreamEntry},
      readEntriesOnto data count place before = .ok found ↔
        ∃ steps, Walk data place steps ∧ steps.length = count ∧
          found = before.reverse ++ steps.map (·.2) := by
  induction count with
  | zero =>
    intro place before found
    constructor
    · intro h
      refine ⟨[], .done place, rfl, ?_⟩
      rw [← Except.ok.inj h, List.map_nil, List.append_nil]
    · rintro ⟨steps, -, hlength, rfl⟩
      rw [List.length_eq_zero_iff.1 hlength, List.map_nil, List.append_nil]
      rfl
  | succ count ih =>
    intro place before found
    rw [readEntriesOnto]
    constructor
    · intro h
      obtain ⟨e, hread, h⟩ := exists_of_bind_ok h
      obtain ⟨_, hcheck, h⟩ := exists_of_bind_ok h
      obtain ⟨steps, hwalk, hlength, rfl⟩ := ih.1 h
      refine ⟨(place, e) :: steps, .next hread (checkEntry_eq_ok_iff.1 hcheck) hwalk, ?_, ?_⟩
      · rw [List.length_cons, hlength]
      · rw [List.reverse_cons, List.append_assoc, List.singleton_append, List.map_cons]
    · rintro ⟨steps, hwalk, hlength, rfl⟩
      cases hwalk with
      | done _ => cases hlength
      | @next _ e more hread hinside hmore =>
        rw [hread, bind_ok, checkEntry_eq_ok_iff.2 hinside, bind_ok]
        refine ih.2 ⟨more, hmore, Nat.succ.inj hlength, ?_⟩
        rw [List.reverse_cons, List.append_assoc, List.singleton_append, List.map_cons]

/-- Entries one behind the other from a place on, each with the place where it stands. -/
def standing : (place : Nat) → List RawEntry → List (Nat × StreamEntry)
  | _, [] => []
  | place, raw :: raws => (place, raw.entry) :: standing (place + raw.occupied) raws

theorem length_standing (place : Nat) (raws : List RawEntry) :
    (standing place raws).length = raws.length := by
  induction raws generalizing place with
  | nil => rfl
  | cons raw raws ih => rw [standing, List.length_cons, ih, List.length_cons]

theorem map_standing (place : Nat) (raws : List RawEntry) :
    (standing place raws).map (·.2) = raws.map (·.entry) := by
  induction raws generalizing place with
  | nil => rfl
  | cons raw raws ih => rw [standing, List.map_cons, ih, List.map_cons]

/-- **A directory is walked as it stands exactly if no place is told wrong**; behind the last entry
no place is needed. The induction is on the entries, and the next of them shows where the walk went
on. -/
theorem walk_standing_iff {bytes behind : List UInt8} {raws : List RawEntry}
    (hvalid : ∀ raw ∈ raws, raw.Valid) (hinside : ∀ raw ∈ raws, raw.entry.Inside bytes.length) :
    ∀ {place : Nat}, bytes.drop place = raws.flatMap RawEntry.bytes ++ behind →
      (Walk (Bytes.ofList bytes) place (standing place raws) ↔
        ∀ raw ∈ raws.dropLast, raw.Keeps) := by
  induction raws with
  | nil => exact fun _ => ⟨fun _ => List.forall_mem_nil _, fun _ => .done _⟩
  | cons raw raws ih =>
    intro place hbytes
    obtain ⟨hfirst, hvalid⟩ := List.forall_mem_cons.1 hvalid
    obtain ⟨hfits, hinside⟩ := List.forall_mem_cons.1 hinside
    rw [List.flatMap_cons, List.append_assoc] at hbytes
    have hread : StreamEntry.read (Bytes.ofList bytes) place = .ok raw.entry :=
      StreamEntry.read_of_standsAt hfirst (RawEntry.standsAt_of_drop hbytes)
    have hnext : bytes.drop (place + raw.occupied) = raws.flatMap RawEntry.bytes ++ behind := by
      rw [← List.drop_drop, hbytes, ← raw.length_bytes, List.drop_left]
    have hmore := ih hvalid hinside hnext
    cases raws with
    | nil => exact ⟨fun _ => List.forall_mem_nil _, fun _ => .next hread hfits (.done _)⟩
    | cons second raws =>
      rw [List.dropLast_cons_cons, List.forall_mem_cons]
      constructor
      · intro hwalk
        cases hwalk with
        | next _ _ hrest =>
          have hkeeps : raw.Keeps := (Nat.add_left_cancel hrest.place_eq).symm
          refine ⟨hkeeps, hmore.1 ?_⟩
          rwa [hkeeps] at hrest
      · rintro ⟨hkeeps, hothers⟩
        refine .next hread hfits ?_
        rw [hkeeps]
        exact hmore.2 hothers

end MetadataRoot

end InteropTables
