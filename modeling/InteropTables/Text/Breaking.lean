import InteropTables.Text.Grapheme.Basic
import InteropTables.Text.Path

/-!
# Breaking texts into lines

A text that is wider than a line is broken where blanks stand between its words; the blank at a
break is dropped. A word that no line holds is broken between graphemes, and starts behind the word
in front of it if a few places are left there.

* `Line`: a line that is not full yet;
* `Line.place`: the lines that a word completes, and the line that it leaves;
* `breakText`: the lines of a text.
-/

namespace InteropTables

/-- The places of a list of characters. -/
def placesOf (text : List Char) : Nat :=
  displayWidth (String.ofList text)

/-- The longest beginning of a list of graphemes that takes no more than the given places, and the
rest. The characters of the beginning are collected in `taken`, from its end. -/
def takePlaces (places : Nat) (taken : List Char) : List (List Char) → List Char × List Char
  | [] => (taken.reverse, [])
  | grapheme :: rest =>
    if placesOf grapheme ≤ places then
      takePlaces (places - placesOf grapheme) (grapheme.reverse ++ taken) rest
    else (taken.reverse, (grapheme :: rest).flatten)

theorem append_takePlaces (places : Nat) (taken : List Char) (graphemes : List (List Char)) :
    (takePlaces places taken graphemes).1 ++ (takePlaces places taken graphemes).2
      = taken.reverse ++ graphemes.flatten := by
  induction graphemes generalizing places taken with
  | nil => simp [takePlaces]
  | cons grapheme rest ih =>
    unfold takePlaces
    split
    · simp [ih]
    · rfl

/-- A line that is not full yet: its text and the places that the text takes. -/
structure Line where
  text : String
  places : Nat
deriving DecidableEq, Repr

namespace Line

/-- A line without text. -/
def blank : Line := ⟨"", 0⟩

/-- Whether a line has no text. -/
def isBlank (line : Line) : Bool := line.text.isEmpty

/-- A line with a word behind its text. -/
def add (line : Line) (word : List Char) (places : Nat) : Line :=
  if line.isBlank then ⟨String.ofList word, places⟩
  else ⟨line.text ++ " " ++ String.ofList word, line.places + 1 + places⟩

/-- How many places behind the text of a line are too few to put anything there. -/
def fewPlaces : Nat := 2

/-- The places that a word may take behind the text of a line. -/
def left (width : Nat) (line : Line) : Nat :=
  if line.isBlank then width else width - line.places - 1

/-- A line that is as good as full, as a complete line, and the line that follows. -/
def complete (width : Nat) (line : Line) : List String × Line :=
  if width - fewPlaces < line.places then ([line.text], blank) else ([], line)

/-- The beginning of a word that goes on a line with so many places, and the rest. A line without
text takes at least one character. -/
def cut (line : Line) (places : Nat) (word : List Char) : List Char × List Char :=
  match takePlaces places [] (Grapheme.split word), word with
  | ([], _), c :: rest => if line.isBlank then ([c], rest) else ([], word)
  | parts, _ => parts

theorem cut_append (line : Line) (places : Nat) (word : List Char) :
    (line.cut places word).1 ++ (line.cut places word).2 = word := by
  have h := append_takePlaces places [] (Grapheme.split word)
  rw [Grapheme.flatten_split, List.reverse_nil, List.nil_append] at h
  unfold cut
  split
  · split <;> rfl
  · exact h

theorem cut_length_le (line : Line) (places : Nat) (word : List Char) :
    (line.cut places word).2.length ≤ word.length := by
  have h := congrArg List.length (line.cut_append places word)
  rw [List.length_append] at h
  omega

/-- A line without text takes something of every word. -/
theorem cut_length_lt {line : Line} (hb : line.isBlank = true) (places : Nat) {word : List Char}
    (hw : word ≠ []) : (line.cut places word).2.length < word.length := by
  obtain ⟨c, rest, rfl⟩ := List.exists_cons_of_ne_nil hw
  have h := congrArg List.length (line.cut_append places (c :: rest))
  rw [List.length_append] at h
  have : (line.cut places (c :: rest)).1 ≠ [] := by
    unfold cut
    split
    · simp [hb]
    · rename_i hne
      intro he
      exact hne _ c rest (Prod.ext he rfl) rfl
  have := List.length_pos_iff.2 this
  omega

/-- The places behind the text of a line and one more. A line without text counts as full. -/
def room (width : Nat) (line : Line) : Nat :=
  if line.isBlank then 0 else 1 + (width - line.places)

theorem room_blank (width : Nat) : blank.room width = 0 := rfl

theorem room_pos {width : Nat} {line : Line} (h : line.isBlank = false) : 0 < line.room width := by
  simp only [room, h]
  exact Nat.lt_add_right _ Nat.one_pos

/-- A line that takes a blank only has less room behind it. -/
theorem room_complete_add_nil {width : Nat} {line : Line} (h : line.isBlank = false)
    (hp : line.places < width) :
    ((line.add [] (placesOf [])).complete width).2.room width < line.room width := by
  have hz : placesOf [] = 0 := rfl
  unfold complete
  split
  · exact room_pos h
  · have ha : line.add [] (placesOf []) = ⟨line.text ++ " " ++ "", line.places + 1⟩ := by
      simp [add, h, hz]
    have hb : (line.add [] (placesOf [])).isBlank = false := by
      simp [ha, isBlank]
    simp only [room, h, hb, Bool.false_eq_true, if_false]
    rw [ha]
    show 1 + (width - (line.places + 1)) < 1 + (width - line.places)
    omega

/-- The lines that a word completes, and the line that it leaves. -/
def place (width : Nat) (line : Line) (word : List Char) : List String × Line :=
  if (line.add word (placesOf word)).places ≤ width then
    (line.add word (placesOf word)).complete width
  else if _h : !line.isBlank && line.left width ≤ fewPlaces then
    let later := place width blank word
    (line.text :: later.1, later.2)
  else if placesOf word ≤ width then
    let next := (blank.add word (placesOf word)).complete width
    (line.text :: next.1, next.2)
  else
    let part := (line.cut (line.left width) word).1
    let next := (line.add part (placesOf part)).complete width
    let later := place width next.2 (line.cut (line.left width) word).2
    (next.1 ++ later.1, later.2)
termination_by (word.length, line.room width)
decreasing_by
  · simp only [Bool.and_eq_true, Bool.not_eq_true'] at _h
    exact Prod.Lex.right _ (room_blank width ▸ room_pos _h.1)
  · rename_i hword
    cases hb : line.isBlank with
    | true =>
      refine Prod.Lex.left _ _ (cut_length_lt hb _ fun e => hword ?_)
      exact e ▸ Nat.zero_le _
    | false =>
      have hp : line.places < width := by
        simp only [hb, Bool.not_false, Bool.true_and, decide_eq_true_eq, left, fewPlaces] at _h
        simp only [Bool.false_eq_true, if_false] at _h
        omega
      rcases Nat.lt_or_eq_of_le (line.cut_length_le (line.left width) word) with hlt | heq
      · exact Prod.Lex.left _ _ hlt
      · have ha := congrArg List.length (line.cut_append (line.left width) word)
        rw [List.length_append] at ha
        have hn : (line.cut (line.left width) word).1 = [] :=
          List.eq_nil_of_length_eq_zero (by omega)
        rw [heq, hn]
        exact Prod.Lex.right _ (room_complete_add_nil hb hp)

/-- One more word: the complete lines so far, and the line that is not full yet. -/
def placeNext (width : Nat) (lines : List String × Line) (word : List Char) : List String × Line :=
  let next := lines.2.place width word
  (next.1.reverse ++ lines.1, next.2)

end Line

/-- The lines of a text, none wider than `width` where graphemes allow it. -/
def breakText (width : Nat) (text : String) : List String :=
  let (full, last) := (Path.splitOn ' ' text.toList).foldl (Line.placeNext width) ([], .blank)
  full.reverse ++ if last.isBlank then [] else [last.text]

end InteropTables
