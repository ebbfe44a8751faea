import InteropTables.Text.Grapheme.Marks
import InteropTables.Text.Width.Sequence

/-!
# What a reader takes for one character

A grapheme is a character with the marks that belong to it, a Hangul syllable, a conjunct, a flag,
or a picture that joiners hold together. A text is cut between graphemes only.

* `GraphemeRole`: what a character may be in a grapheme;
* `Grapheme.Joint`: what the characters of a grapheme so far say about the next one;
* `Grapheme.Joint.continues`: whether the next character belongs to the same grapheme;
* `Grapheme.split`: the graphemes of a text.
-/

namespace InteropTables

/-! ## 1. Roles -/

/-- What a character may be in a grapheme. -/
inductive GraphemeRole where
  /-- A grapheme of its own. -/
  | separator
  /-- A mark on the character in front of it. -/
  | mark
  /-- A mark that takes a place. -/
  | spacingMark
  /-- A joiner. -/
  | joiner
  /-- A mark on the character behind it. -/
  | prefixed
  /-- A letter of a flag. -/
  | flagLetter
  /-- A consonant in front of a Hangul syllable. -/
  | leading
  /-- A Hangul vowel. -/
  | vowel
  /-- A consonant at the end of a Hangul syllable. -/
  | trailing
  /-- A Hangul syllable, and whether it ends in a consonant. -/
  | syllable (closed : Bool)
  /-- A picture. -/
  | picture
  /-- Any other character. -/
  | other
deriving DecidableEq, Repr

namespace GraphemeRole

/-- The first of the Hangul syllables. -/
def firstSyllable : Nat := 0xAC00

/-- The number of Hangul syllables that share consonant and vowel. -/
def syllablesPerVowel : Nat := 28

/-- The role of a letter of the Hangul script. -/
def ofHangul? (c : Char) : Option GraphemeRole :=
  if CharRanges.has [(0x1100, 0x115F), (0xA960, 0xA97C)] c then some .leading
  else if CharRanges.has [(0x1160, 0x11A7), (0xD7B0, 0xD7C6)] c then some .vowel
  else if CharRanges.has [(0x11A8, 0x11FF), (0xD7CB, 0xD7FB)] c then some .trailing
  else if CharRanges.has [(0xAC00, 0xD7A3)] c then
    some (.syllable ((c.toNat - firstSyllable) % syllablesPerVowel != 0))
  else none

/-- Whether a character is a mark on the character in front of it. -/
def isMark (c : Char) : Bool :=
  (placeless.has c && !CharRanges.has [(0x3164, 0x3164), (0xA8FA, 0xA8FA), (0xFFA0, 0xFFA0)] c) ||
    isTone c || CharRanges.has [(0x2D7F, 0x2D7F), (0xFF9E, 0xFF9F)] c

/-- Whether a character is a picture, on its own or with a selector. -/
def isPicture (c : Char) : Bool :=
  emoji.has c || (selectable.has c && 0xA0 ≤ c.toNat)

/-- The role of a character. The vowel signs of Kirat Rai join like Hangul vowels. -/
def ofChar (c : Char) : GraphemeRole :=
  if separators.has c then .separator
  else if isJoiner c then .joiner
  else if prefixedMarks.has c then .prefixed
  else if isFlagLetter c then .flagLetter
  else if CharRanges.has [(0x16D63, 0x16D63), (0x16D67, 0x16D6A)] c then .vowel
  else
    match ofHangul? c with
    | some role => role
    | none =>
      if isMark c then .mark
      else if spacingMarks.has c then .spacingMark
      else if isPicture c then .picture
      else .other

/-- Whether two characters belong together wherever they stand side by side. -/
def joins : GraphemeRole → GraphemeRole → Bool
  | .separator, _ | _, .separator => false
  | _, .mark | _, .spacingMark | _, .joiner => true
  | .prefixed, _ => true
  | .leading, .leading | .leading, .vowel | .leading, .syllable _ => true
  | .vowel, .vowel | .vowel, .trailing => true
  | .syllable false, .vowel | .syllable _, .trailing => true
  | .trailing, .trailing => true
  | _, _ => false

end GraphemeRole

/-! ## 2. Graphemes -/

namespace Grapheme

/-- How far a conjunct has come. -/
inductive Conjunct where
  /-- There is none. -/
  | none
  /-- A consonant, and marks behind it. -/
  | consonant
  /-- A consonant and a sign that joins the next. -/
  | joined
deriving DecidableEq, Repr

/-- What the characters of a grapheme so far say about the next one. -/
structure Joint where
  /-- The role of the last character. -/
  last : GraphemeRole
  /-- Whether it ends in a picture and marks. -/
  pictured : Bool
  /-- Whether it ends in a picture, marks and a joiner. -/
  held : Bool
  /-- Whether it is one letter of a flag. -/
  halfFlag : Bool
  conjunct : Conjunct
deriving DecidableEq, Repr

namespace Joint

/-- How far a conjunct has come with one more character. -/
def nextConjunct (conjunct : Conjunct) (role : GraphemeRole) (c : Char) : Conjunct :=
  if conjunctConsonants.has c then .consonant
  else if conjunct = .none then .none
  else if conjunctSigns.has c then .joined
  else if role = .mark || role = .joiner then conjunct
  else .none

/-- What the first character of a grapheme says. -/
def first (c : Char) : Joint :=
  let role := GraphemeRole.ofChar c
  ⟨role, role = .picture, false, role = .flagLetter, nextConjunct .none role c⟩

/-- Whether the next character belongs to the same grapheme. -/
def continues (joint : Joint) (c : Char) : Bool :=
  let role := GraphemeRole.ofChar c
  joint.last.joins role ||
    (joint.held && role = .picture) ||
    (joint.halfFlag && role = .flagLetter) ||
    (joint.conjunct = .joined && conjunctConsonants.has c)

/-- What a grapheme says with one more character. -/
def next (joint : Joint) (c : Char) : Joint :=
  let role := GraphemeRole.ofChar c
  { last := role
    pictured := role = .picture || (joint.pictured && role = .mark)
    held := joint.pictured && role = .joiner
    halfFlag := role = .flagLetter && !joint.halfFlag
    conjunct := nextConjunct joint.conjunct role c }

end Joint

/-- The graphemes read so far, the last in front and each from its end, and what the last of them
says about the next character. -/
structure Scan where
  read : List (List Char)
  joint : Option Joint

/-- One more character read. -/
def Scan.next (scan : Scan) (c : Char) : Scan :=
  match scan.joint, scan.read with
  | some joint, grapheme :: others =>
    if joint.continues c then ⟨(c :: grapheme) :: others, some (joint.next c)⟩
    else ⟨[c] :: grapheme :: others, some (.first c)⟩
  | _, read => ⟨[c] :: read, some (.first c)⟩

/-- The graphemes of a text. -/
def split (text : List Char) : List (List Char) :=
  (text.foldl Scan.next ⟨[], none⟩).read.reverse.map List.reverse

theorem flatten_next (scan : Scan) (c : Char) :
    ((scan.next c).read.reverse.map List.reverse).flatten
      = (scan.read.reverse.map List.reverse).flatten ++ [c] := by
  unfold Scan.next
  split
  · rename_i h
    split <;> simp [h]
  · simp

/-- **The graphemes of a text make up the text.** -/
theorem flatten_split (text : List Char) : (split text).flatten = text := by
  suffices h : ∀ scan : Scan, ((text.foldl Scan.next scan).read.reverse.map List.reverse).flatten
      = (scan.read.reverse.map List.reverse).flatten ++ text by
    simpa [split] using h ⟨[], none⟩
  induction text with
  | nil => simp
  | cons c cs ih =>
    intro scan
    rw [List.foldl_cons, ih, flatten_next, List.append_assoc, List.singleton_append]

end Grapheme

end InteropTables
