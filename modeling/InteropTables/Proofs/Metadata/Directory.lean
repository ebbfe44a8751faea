import InteropTables.Proofs.Metadata.Entries

/-!
# The directory of streams read back

The directory holds one entry behind the other, and the place of an entry follows from the names of
those in front of it. So it is read back only if every name comes out of its bytes with the size
that it has there; a name that is text does.

* `MetadataRoot.untilZero_ofList`: text that zero bytes fill up;
* `StreamEntry.Valid`, `StreamEntry.bytes`: what an entry may be, and its bytes;
* `StreamEntry.raw`: an entry by the bytes of its name;
* `readEntriesOnto_bytes`: **entries that lie inside are read back.**
-/

namespace InteropTables

/-! ## 1. Text filled up with zero bytes -/

/-- Zero bytes behind a text do not belong to it, and there need not be any. -/
theorem MetadataRoot.untilZero_ofList {part : List UInt8} (hpart : ∀ b ∈ part, b ≠ 0)
    (padding : Nat) :
    untilZero (Bytes.ofList (part ++ List.replicate padding 0)) = Bytes.ofList part := by
  cases padding with
  | zero => rw [List.replicate_zero, List.append_nil, untilZero,
      findZero_eq_none part hpart 0 rfl]
  | succ padding =>
    have hzero : Bytes.findZero (Bytes.ofList (part ++ List.replicate (padding + 1) 0)) 0
        = some (0 + part.length) := findZero_ofList part hpart 0 rfl
    rw [untilZero, hzero, Nat.zero_add]
    dsimp only
    rw [Bytes.extract_ofList, List.take_left, List.drop_zero]

/-! ## 2. One entry -/

namespace StreamEntry

/-- An entry that a directory may hold: two words, and a short name that is not empty and has no
zero in it. -/
structure Valid (e : StreamEntry) : Prop where
  offset : e.offset < wordCount 4
  size : e.size < wordCount 4
  name_pos : 0 < e.name.utf8ByteSize
  name_lt : e.name.utf8ByteSize < maxNameSize
  no_nul : nul ∉ e.name.toList

/-- The zero bytes behind a name: one at least, and as many as fill up the last word. -/
def padding (e : StreamEntry) : Nat :=
  4 - e.name.utf8ByteSize % 4

/-- The bytes of an entry. -/
def bytes (e : StreamEntry) : List UInt8 :=
  ofNatLE 4 e.offset ++ (ofNatLE 4 e.size ++ (textBytes e.name ++ List.replicate e.padding 0))

theorem length_bytes (e : StreamEntry) : e.bytes.length = e.encodedSize := by
  simp only [bytes, List.length_append, length_ofNatLE, List.length_replicate, length_textBytes,
    padding, encodedSize]
  omega

theorem length_bytes_ge (e : StreamEntry) : 12 ≤ e.bytes.length := by
  rw [length_bytes, encodedSize]
  omega

variable {e : StreamEntry}

/-- An entry by the bytes of its name. -/
def raw (e : StreamEntry) : RawEntry :=
  ⟨e.offset, e.size, textBytes e.name⟩

theorem bytes_raw (e : StreamEntry) : e.raw.bytes = e.bytes := by
  rw [RawEntry.bytes, bytes, padding, raw, length_textBytes]

theorem entry_raw (e : StreamEntry) : e.raw.entry = e := by
  rw [RawEntry.entry, raw, Lossy.decode_textBytes]

theorem valid_raw (h : e.Valid) : e.raw.Valid := by
  refine ⟨h.offset, h.size, ?_, ?_, textBytes_ne_zero h.no_nul⟩
  · rw [raw, length_textBytes]
    exact h.name_pos
  · rw [raw, length_textBytes]
    exact h.name_lt

theorem keeps_raw (e : StreamEntry) : e.raw.Keeps :=
  RawEntry.keeps_of_text rfl

end StreamEntry

/-! ## 3. All entries -/

namespace MetadataRoot

/-- **Entries that lie inside are read back.** Their names are text, so no place is told wrong. -/
theorem readEntriesOnto_bytes {bytes behind : List UInt8} {entries : List StreamEntry}
    (hvalid : ∀ e ∈ entries, e.Valid) (hinside : ∀ e ∈ entries, e.Inside bytes.length)
    {place : Nat} {before : List StreamEntry}
    (hbytes : bytes.drop place = entries.flatMap StreamEntry.bytes ++ behind) :
    readEntriesOnto (Bytes.ofList bytes) entries.length place before
      = .ok (before.reverse ++ entries) := by
  have hraw : (entries.map StreamEntry.raw).map RawEntry.entry = entries := by
    rw [List.map_map]
    exact (List.map_congr_left fun e _ => e.entry_raw).trans (List.map_id' entries)
  have hdrop : bytes.drop place
      = (entries.map StreamEntry.raw).flatMap RawEntry.bytes ++ behind := by
    rw [hbytes, List.flatMap_map]
    simp only [StreamEntry.bytes_raw]
  have hrawInside : ∀ raw ∈ entries.map StreamEntry.raw, raw.entry.Inside bytes.length := by
    refine List.forall_mem_map.2 fun e he => ?_
    rw [e.entry_raw]
    exact hinside e he
  have hwalk := (walk_standing_iff
    (List.forall_mem_map.2 fun e he => StreamEntry.valid_raw (hvalid e he)) hrawInside hdrop).2
    fun raw hmem => by
      obtain ⟨e, -, rfl⟩ := List.mem_map.1 (List.dropLast_subset _ hmem)
      exact e.keeps_raw
  refine readEntriesOnto_eq_ok_iff.2 ⟨_, hwalk, ?_, ?_⟩
  · rw [length_standing, List.length_map]
  · rw [map_standing, hraw]

end MetadataRoot

end InteropTables
