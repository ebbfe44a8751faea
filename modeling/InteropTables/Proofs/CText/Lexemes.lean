import InteropTables.Proofs.CText.Lines

/-!
# The words and marks of a C text

The code of a line is made of words and marks. A word goes on as long as letters, digits and
underscores stand behind one another; every other character but a blank is a mark of its own.

* `Lexeme`, `lexemes`: the lexemes of pieces;
* `readLexemes`: **the lexemes of every line of a text**;
* `Word`: what is read as one word;
* `Gives`, `Closes`: the lexemes of a stretch of code, before what does not go on with its last
  word, and before anything;
* `gives_word`, `closes_intercalate`: words, and lists with a separator.
-/

namespace InteropTables

namespace CText

/-! ## 1. Lexemes -/

/-- What code is made of. -/
inductive Lexeme where
  | word (text : String)
  | mark (c : Char)
  | literal (text : String)
deriving DecidableEq, Repr

/-- A character of a word. -/
def isWordPart (c : Char) : Bool :=
  isWordChar c || c == '_'

/-- The word of characters that were read, last one first. -/
def closeWord (word : List Char) : List Lexeme :=
  if word = [] then [] else [.word (String.ofList word.reverse)]

/-- The lexemes of pieces behind the characters of a word. -/
def lexemesOnto (word : List Char) : List Piece → List Lexeme
  | [] => closeWord word
  | .code c :: pieces =>
    if isWordPart c then lexemesOnto (c :: word) pieces
    else closeWord word ++ (if c = ' ' then [] else [.mark c]) ++ lexemesOnto [] pieces
  | .quoted _ text :: pieces => closeWord word ++ .literal text :: lexemesOnto [] pieces
  | .comment _ :: pieces => closeWord word ++ lexemesOnto [] pieces
  | .lineEnd :: pieces => closeWord word ++ lexemesOnto [] pieces

/-- The lexemes of pieces. -/
def lexemes (pieces : List Piece) : List Lexeme :=
  lexemesOnto [] pieces

/-- The lexemes of every line of a text. -/
def readLexemes (text : String) : Option (List (List Lexeme)) :=
  (readLines text).map (List.map lexemes)

/-! ## 2. Words -/

/-- A text that is read as one word. -/
structure Word (w : String) : Prop where
  nonempty : w ≠ ""
  parts : ∀ c ∈ w.toList, isWordPart c = true

instance (w : String) : Decidable (Word w) :=
  decidable_of_iff (w ≠ "" ∧ w.toList.all isWordPart = true)
    ⟨fun h => ⟨h.1, List.all_eq_true.1 h.2⟩, fun h => ⟨h.nonempty, List.all_eq_true.2 h.parts⟩⟩

theorem bare_of_parts {w : String} (hw : ∀ c ∈ w.toList, isWordPart c = true) : Bare w.toList := by
  intro c hc hmark
  have hpart := hw c hc
  simp only [lineMarks, List.mem_cons, List.not_mem_nil, or_false] at hmark
  rcases hmark with rfl | rfl | rfl | rfl | rfl <;> exact absurd hpart (by decide)

theorem Word.append_parts {v w : String} (hv : Word v) (hw : ∀ c ∈ w.toList, isWordPart c = true) :
    Word (v ++ w) where
  nonempty h := hv.nonempty (String.append_eq_empty_iff.1 h).1
  parts c hc := by
    rw [String.toList_append, List.mem_append] at hc
    exact hc.elim (hv.parts c) (hw c)

/-- Pieces that do not go on with a word. -/
def Apart (pieces : List Piece) : Prop :=
  ∀ c, pieces.head? = some (.code c) → isWordPart c = false

theorem lexemesOnto_word {w : List Char} (hw : ∀ c ∈ w, isWordPart c = true) (word : List Char)
    (rest : List Piece) :
    lexemesOnto word (w.map .code ++ rest) = lexemesOnto (w.reverse ++ word) rest := by
  induction w generalizing word with
  | nil => rfl
  | cons c w ih =>
    obtain ⟨hc, hw⟩ := List.forall_mem_cons.1 hw
    rw [List.map_cons, List.cons_append, lexemesOnto, if_pos hc, ih hw, List.reverse_cons,
      List.append_assoc]
    rfl

/-- A word ends where the pieces do not go on with it. -/
theorem lexemesOnto_apart {rest : List Piece} (h : Apart rest) (word : List Char) :
    lexemesOnto word rest = closeWord word ++ lexemes rest := by
  cases rest with
  | nil => simp [lexemes, lexemesOnto, closeWord]
  | cons piece rest =>
    cases piece with
    | code c =>
      have hc : isWordPart c = false := h c rfl
      simp [lexemes, lexemesOnto, closeWord, hc]
    | quoted quote text => simp [lexemes, lexemesOnto, closeWord]
    | comment text => simp [lexemes, lexemesOnto, closeWord]
    | lineEnd => simp [lexemes, lexemesOnto, closeWord]

/-! ## 3. Stretches of code -/

/-- A stretch of code gives these lexemes before what does not go on with its last word. -/
def Gives (s : String) (ts : List Lexeme) : Prop :=
  ∀ rest, Apart rest → lexemes (codeOf s ++ rest) = ts ++ lexemes rest

/-- A stretch of code gives these lexemes before anything. -/
def Closes (s : String) (ts : List Lexeme) : Prop :=
  ∀ rest, lexemes (codeOf s ++ rest) = ts ++ lexemes rest

variable {s t u : String} {ts us : List Lexeme}

theorem codeOf_append (s t : String) : codeOf (s ++ t) = codeOf s ++ codeOf t := by
  rw [codeOf, String.toList_append, List.map_append]
  rfl

theorem Closes.gives (h : Closes s ts) : Gives s ts :=
  fun rest _ => h rest

theorem Closes.append (h : Closes s ts) (h' : Closes t us) : Closes (s ++ t) (ts ++ us) := by
  intro rest
  rw [codeOf_append, List.append_assoc, h, h', List.append_assoc]

theorem Closes.append_gives (h : Closes s ts) (h' : Gives t us) : Gives (s ++ t) (ts ++ us) := by
  intro rest hrest
  rw [codeOf_append, List.append_assoc, h, h' rest hrest, List.append_assoc]

/-- A text that begins with a character of no word. -/
def StartsApart (t : String) : Prop :=
  t.toList.head?.any (fun c => !isWordPart c) = true

instance (t : String) : Decidable (StartsApart t) :=
  inferInstanceAs (Decidable (_ = true))

theorem StartsApart.apart (h : StartsApart t) (rest : List Piece) : Apart (codeOf t ++ rest) := by
  intro d hd
  rw [codeOf] at hd
  rw [StartsApart] at h
  cases hchars : t.toList with
  | nil =>
    rw [hchars] at h
    exact absurd h (by decide)
  | cons c more =>
    rw [hchars] at h hd
    cases hd
    simpa using h

/-- Behind a stretch comes one that does not go on with its last word. -/
theorem Gives.append (h : Gives s ts) (h' : Closes t us) (ht : StartsApart t) :
    Closes (s ++ t) (ts ++ us) := by
  intro rest
  rw [codeOf_append, List.append_assoc, h _ (ht.apart rest), h', List.append_assoc]

theorem Closes.lexemes (h : Closes s ts) : lexemes (codeOf s) = ts := by
  have hall := h []
  rwa [List.append_nil, show CText.lexemes [] = [] from rfl, List.append_nil] at hall

theorem gives_empty : Gives "" [] :=
  fun _ _ => rfl

/-- **A word is one lexeme.** -/
theorem gives_word (h : Word s) : Gives s [.word s] := by
  intro rest hrest
  have hne : s.toList.reverse ≠ [] := by
    rw [ne_eq, List.reverse_eq_nil_iff, String.toList_eq_nil_iff]
    exact h.nonempty
  rw [CText.lexemes, codeOf, lexemesOnto_word h.parts, lexemesOnto_apart hrest, List.append_nil,
    closeWord, if_neg hne, List.reverse_reverse, String.ofList_toList]

/-- Texts with a separator between them. -/
theorem gives_intercalate {α : Type} {text : α → String} {toks : α → List Lexeme}
    {sep : List Lexeme} (ht : Closes t sep) (hstarts : StartsApart t) : ∀ {l : List α},
      (∀ a ∈ l, Gives (text a) (toks a)) →
      Gives (t.intercalate (l.map text)) (sep.intercalate (l.map toks))
  | [], _ => gives_empty
  | [a], h => by
    rw [List.map_singleton, List.map_singleton, String.intercalate_singleton,
      List.intercalate_singleton]
    exact h a (List.mem_singleton_self a)
  | a :: b :: l, h => by
    obtain ⟨ha, hl⟩ := List.forall_mem_cons.1 h
    have ih := gives_intercalate ht hstarts hl
    rw [List.map_cons, List.map_cons, String.intercalate_cons_cons, List.map_cons, List.map_cons,
      List.intercalate_cons_cons]
    exact (ha.append ht hstarts).append_gives ih

/-- Texts behind one another. -/
theorem closes_join {α : Type} {text : α → String} {toks : α → List Lexeme} {l : List α}
    (h : ∀ a ∈ l, Closes (text a) (toks a)) :
    Closes (String.join (l.map text)) (l.flatMap toks) := by
  induction l with
  | nil => exact fun _ => rfl
  | cons a l ih =>
    obtain ⟨ha, hl⟩ := List.forall_mem_cons.1 h
    rw [List.map_cons, String.join_cons, List.flatMap_cons]
    exact ha.append (ih hl)

/-! ## 4. Numbers -/

/-- The number that a word writes. -/
def number? (w : String) : Option Nat :=
  if w ≠ "" ∧ w.toList.all Char.isDigit = true then some (Nat.ofDigitChars 10 w.toList 0) else none

theorem isWordPart_of_isDigit {c : Char} (h : c.isDigit = true) : isWordPart c = true := by
  have hword : isWordChar c = true := by
    rw [isWordChar, Bool.or_eq_true]
    exact .inr h
  rw [isWordPart, hword, Bool.true_or]

theorem isDigit_toString {n : Nat} {c : Char} (h : c ∈ (toString n).toList) : c.isDigit = true := by
  rw [Nat.toString_eq_repr, Nat.toList_repr] at h
  exact Nat.isDigit_of_mem_toDigits (by decide) (by decide) h

theorem word_toString (n : Nat) : Word (toString n) where
  nonempty := by
    rw [Nat.toString_eq_repr, ne_eq, ← String.toList_eq_nil_iff, Nat.toList_repr]
    exact Nat.toDigits_ne_nil
  parts _ hc := isWordPart_of_isDigit (isDigit_toString hc)

/-- **A number is read back.** -/
theorem number?_toString (n : Nat) : number? (toString n) = some n := by
  have hdigits : (toString n).toList.all Char.isDigit = true :=
    List.all_eq_true.2 fun _ => isDigit_toString
  rw [number?, if_pos ⟨(word_toString n).nonempty, hdigits⟩, Nat.toString_eq_repr,
    Nat.toList_repr, Nat.ofDigitChars_ten_toDigits]

end CText
end InteropTables
