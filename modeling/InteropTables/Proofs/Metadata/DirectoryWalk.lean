import InteropTables.Proofs.Metadata.Root

/-!
# How a directory is walked

A directory begins behind the number of its entries, and each entry is looked for where the text of
the name in front of it would end. Names that are text end there. A name of damaged bytes may end
earlier; then what is read next does not stand where an entry begins.

* `MetadataRoot.Directory`, `Directory.walk_iff`: entries one behind the other, and when the walk
  finds them;
* `MetadataRoot.read_of_keeps`: **a directory is read as it stands if no place is told wrong**;
* `directory_walk`: **all of this**, entry by entry and as a whole.
-/

namespace InteropTables

namespace MetadataRoot

/-! ## 1. Directories as they stand -/

/-- Entries of a directory: they can be read, they lie inside the metadata, and they stand one
behind the other from a place on. -/
structure Directory (bytes : List UInt8) (place : Nat) (raws : List RawEntry) : Prop where
  valid : ∀ raw ∈ raws, raw.Valid
  inside : ∀ raw ∈ raws, raw.entry.Inside bytes.length
  stands : ∃ behind, bytes.drop place = raws.flatMap RawEntry.bytes ++ behind

theorem Directory.walk_iff {bytes : List UInt8} {place : Nat} {raws : List RawEntry}
    (h : Directory bytes place raws) :
    Walk (Bytes.ofList bytes) place (standing place raws) ↔ ∀ raw ∈ raws.dropLast, raw.Keeps := by
  obtain ⟨behind, hstands⟩ := h.stands
  exact walk_standing_iff h.valid h.inside hstands

/-- **A directory is read as it stands if no place is told wrong.** -/
theorem read_of_keeps {bytes : List UInt8} {root : MetadataRoot} {versionSize : Nat}
    {raws : List RawEntry} (hhead : Head (Bytes.ofList bytes) root versionSize raws.length)
    (hdirectory : Directory bytes (directoryPlace versionSize) raws)
    (hkeeps : ∀ raw ∈ raws.dropLast, raw.Keeps) :
    read (Bytes.ofList bytes) = .ok { root with streams := raws.map (·.entry) } := by
  refine read_eq_ok_iff.2 ⟨versionSize, raws.length, standing (directoryPlace versionSize) raws,
    ?_, hdirectory.walk_iff.2 hkeeps, length_standing .., (map_standing ..).symm⟩
  exact ⟨hhead.long, hhead.signature, hhead.majorVersion, hhead.minorVersion, hhead.versionSize,
    hhead.version, hhead.entries, hhead.entries_pos, hhead.room⟩

end MetadataRoot

/-! ## 2. Directories -/

open MetadataRoot

/-- **A directory is walked by the texts of its names.** In any bytes, what is read at a place is an
entry that stands there. The place behind it is told from the text of its name: never too early, and
right exactly if the text takes as many whole words as the bytes, so for every name that is text. A
root is read by a walk from behind the number of its entries, each at the place told by the one in
front. And where entries stand one behind the other, the walk finds each where it stands exactly if
no place but the last is told wrong. -/
theorem directory_walk (bytes : List UInt8) :
    (∀ place e, StreamEntry.read (Bytes.ofList bytes) place = .ok e ↔
      ∃ raw : RawEntry, raw.Valid ∧ raw.StandsAt bytes place ∧ e = raw.entry) ∧
    (∀ raw : RawEntry, raw.occupied ≤ raw.entry.encodedSize ∧
      (raw.entry.encodedSize = raw.occupied ↔
        raw.entry.name.utf8ByteSize / 4 = raw.name.length / 4) ∧
      ∀ text, raw.name = textBytes text → raw.entry.encodedSize = raw.occupied) ∧
    (∀ root, MetadataRoot.read (Bytes.ofList bytes) = .ok root ↔
      ∃ versionSize count steps, Head (Bytes.ofList bytes) root versionSize count ∧
        Walk (Bytes.ofList bytes) (directoryPlace versionSize) steps ∧ steps.length = count ∧
        root.streams = steps.map (·.2)) ∧
    (∀ place raws, Directory bytes place raws →
      (Walk (Bytes.ofList bytes) place (standing place raws) ↔
        ∀ raw ∈ raws.dropLast, raw.entry.encodedSize = raw.occupied)) ∧
    ∀ root versionSize raws, Head (Bytes.ofList bytes) root versionSize raws.length →
      Directory bytes (directoryPlace versionSize) raws →
      (∀ raw ∈ raws.dropLast, raw.entry.encodedSize = raw.occupied) →
      MetadataRoot.read (Bytes.ofList bytes) = .ok { root with streams := raws.map (·.entry) } := by
  refine ⟨fun _ _ => StreamEntry.read_eq_ok_iff, fun raw => ?_, fun _ => read_eq_ok_iff,
    fun _ _ h => h.walk_iff, fun _ _ _ => read_of_keeps⟩
  exact ⟨raw.occupied_le, RawEntry.keeps_iff, fun _ => RawEntry.keeps_of_text⟩

/-- Metadata with a directory of given entries, and some bytes behind it. -/
def metadataOf (raws : List RawEntry) : List UInt8 :=
  ofNatLE 4 signature ++ [1, 0, 1, 0, 0, 0, 0, 0, 4, 0, 0, 0, 0x76, 0, 0, 0, 0, 0] ++
    (ofNatLE 2 raws.length ++ (raws.flatMap RawEntry.bytes ++ List.replicate 16 0))

/-- Two entries, the first of them with a name of one damaged byte. -/
def oneDamaged : List RawEntry := [⟨0, 0, [0xFF]⟩, ⟨0, 4, textBytes "#~"⟩]

/-- Two entries, the first of them with a name of two damaged bytes. -/
def twoDamaged : List RawEntry := [⟨0, 0, [0xFF, 0xFF]⟩, ⟨0, 4, textBytes "#~"⟩]

/-- A character for one damaged byte does not reach into the next word, so both entries are read. -/
theorem directory_walk_oneDamaged :
    Head (Bytes.ofList (metadataOf oneDamaged)) ⟨1, 1, "v", []⟩ 4 oneDamaged.length ∧
    Directory (metadataOf oneDamaged) (directoryPlace 4) oneDamaged ∧
    (∀ raw ∈ oneDamaged.dropLast, raw.entry.encodedSize = raw.occupied) ∧
    MetadataRoot.read (Bytes.ofList (metadataOf oneDamaged))
      = .ok ⟨1, 1, "v", oneDamaged.map (·.entry)⟩ := by
  have hhead : Head (Bytes.ofList (metadataOf oneDamaged)) ⟨1, 1, "v", []⟩ 4 oneDamaged.length := by
    refine ⟨by decide, rfl, rfl, rfl, rfl, ⟨_, rfl, ?_⟩, rfl, by decide, by decide⟩
    decide +kernel
  have hdirectory : Directory (metadataOf oneDamaged) (directoryPlace 4) oneDamaged := by
    refine ⟨fun raw hraw => ?_, fun raw hraw => ?_, ⟨List.replicate 16 0, rfl⟩⟩
    · simp only [oneDamaged, List.mem_cons, List.not_mem_nil, or_false] at hraw
      rcases hraw with rfl | rfl
      · exact ⟨by decide, by decide, by decide, by decide, by decide +kernel⟩
      · exact ⟨by decide, by decide, by decide, by decide, by decide +kernel⟩
    · simp only [oneDamaged, List.mem_cons, List.not_mem_nil, or_false] at hraw
      rcases hraw with rfl | rfl <;> exact ⟨by decide, by decide⟩
  have hkeeps : ∀ raw ∈ oneDamaged.dropLast, raw.entry.encodedSize = raw.occupied := by
    decide +kernel
  obtain ⟨-, -, -, -, hread⟩ := directory_walk (metadataOf oneDamaged)
  exact ⟨hhead, hdirectory, hkeeps, hread _ 4 oneDamaged hhead hdirectory hkeeps⟩

/-- Characters for two damaged bytes do. The entry takes twelve bytes and is taken for one of
sixteen, so the second entry is missed, and the root is refused for what is read in its place. -/
theorem directory_walk_twoDamaged :
    (∃ raw : RawEntry, raw.Valid ∧ raw.StandsAt [0, 0, 0, 0, 0, 0, 0, 0, 0xFF, 0xFF, 0, 0] 0 ∧
      StreamEntry.read (Bytes.ofList [0, 0, 0, 0, 0, 0, 0, 0, 0xFF, 0xFF, 0, 0]) 0
        = .ok raw.entry ∧
      raw.entry.encodedSize = 16 ∧ 8 + (raw.name.length + 1 + 3) / 4 * 4 = 12) ∧
    Head (Bytes.ofList (metadataOf twoDamaged)) ⟨1, 1, "v", []⟩ 4 twoDamaged.length ∧
    Directory (metadataOf twoDamaged) (directoryPlace 4) twoDamaged ∧
    MetadataRoot.read (Bytes.ofList (metadataOf twoDamaged))
      = .error (.malformed .streamNameEmpty) := by
  have hvalid : (⟨0, 0, [0xFF, 0xFF]⟩ : RawEntry).Valid :=
    ⟨by decide, by decide, by decide, by decide, by decide +kernel⟩
  have hstands : (⟨0, 0, [0xFF, 0xFF]⟩ : RawEntry).StandsAt
      [0, 0, 0, 0, 0, 0, 0, 0, 0xFF, 0xFF, 0, 0] 0 := ⟨[0], rfl⟩
  refine ⟨⟨_, hvalid, hstands, StreamEntry.read_of_standsAt hvalid hstands, ?_, rfl⟩,
    ?_, ⟨fun raw hraw => ?_, fun raw hraw => ?_, ⟨List.replicate 16 0, rfl⟩⟩, ?_⟩
  · decide +kernel
  · refine ⟨by decide, rfl, rfl, rfl, rfl, ⟨_, rfl, ?_⟩, rfl, by decide, by decide⟩
    decide +kernel
  · simp only [twoDamaged, List.mem_cons, List.not_mem_nil, or_false] at hraw
    rcases hraw with rfl | rfl
    · exact hvalid
    · exact ⟨by decide, by decide, by decide, by decide, by decide +kernel⟩
  · simp only [twoDamaged, List.mem_cons, List.not_mem_nil, or_false] at hraw
    rcases hraw with rfl | rfl <;> exact ⟨by decide, by decide⟩
  · decide +kernel

end InteropTables
