import InteropTables.Text.Width.Emoji
import InteropTables.Text.Width.Marks
import InteropTables.Text.Width.Wide

/-!
# The places of a text

A text is read from its end. How many places a character takes follows from the character and from
what stands behind it: letters join into one shape, and emoji, selectors and joiners make up one
picture.

* `charWidth`: the places of a character that nothing joins;
* `Behind`, `Selector`, `Context`: what stands behind a character, as far as it matters;
* `Behind.join?`: the places of a character that joins what stands behind it;
* `Context.before`: one step towards the front of the text;
* `displayWidth`: the places of a text.
-/

namespace InteropTables

/-! ## 1. Single characters -/

/-- The places of a character that nothing joins. Controls take one place like letters. -/
def charWidth (c : Char) : Nat :=
  if c.toNat ≤ 0xA0 then 1
  else if placeless.has c then 0
  else if wide.has c then 2
  else if c.toNat = 0x17D8 then 3
  else 1

/-- The sign that joins what stands on its two sides. -/
def isJoiner (c : Char) : Bool := c.toNat = 0x200D

/-- The letters of which two name a flag. -/
def isFlagLetter : Char → Bool := CharRanges.has [(0x1F1E6, 0x1F1FF)]

/-- The five skin tones. -/
def isTone : Char → Bool := CharRanges.has [(0x1F3FB, 0x1F3FF)]

/-- The letters of the name in a flag of a region. -/
def isTagLetter : Char → Bool := CharRanges.has [(0xE0061, 0xE007A)]

/-- The digits of the name in a flag of a region. -/
def isTagDigit : Char → Bool := CharRanges.has [(0xE0030, 0xE0039)]

/-- Alef and its relatives, which Lam draws to itself. -/
def isAlef : Char → Bool := CharRanges.has
  [(0x0622, 0x0623), (0x0625, 0x0625), (0x0627, 0x0627), (0x0671, 0x0673), (0x0675, 0x0675),
    (0x0773, 0x0774), (0x0870, 0x0882)]

/-- Lam and its relatives. -/
def isLam : Char → Bool := CharRanges.has
  [(0x0644, 0x0644), (0x06B5, 0x06B8), (0x076A, 0x076A), (0x08A6, 0x08A6), (0x08C7, 0x08C7)]

/-- The Khmer letters that have a form below the line. -/
def isSubjoined : Char → Bool := CharRanges.has
  [(0x1780, 0x1782), (0x1784, 0x1787), (0x1789, 0x178C), (0x178E, 0x1793), (0x1795, 0x1798),
    (0x179B, 0x179D), (0x17A0, 0x17A0), (0x17A2, 0x17A2), (0x17A7, 0x17A7), (0x17AB, 0x17AC),
    (0x17AF, 0x17AF)]

/-- The Tifinagh consonants. -/
def isTifinagh : Char → Bool := CharRanges.has [(0x2D31, 0x2D65), (0x2D6F, 0x2D6F)]

/-- The Lisu tones that another tone may follow. -/
def isFirstTone : Char → Bool := CharRanges.has [(0xA4F8, 0xA4FB)]

/-- The Lisu tones that may follow another. -/
def isSecondTone : Char → Bool := CharRanges.has [(0xA4FC, 0xA4FD)]

/-- The quotation marks that exist in two widths. -/
def isQuotationMark : Char → Bool := CharRanges.has [(0x2018, 0x2019), (0x201C, 0x201D)]

/-- The signs that leave letters joined across them. -/
def isTransparent : Char → Bool := CharRanges.has
  [(0x034F, 0x034F), (0x17B4, 0x17B5), (0x180B, 0x180D), (0x180F, 0x180F), (0xFE00, 0xFE0F),
    (0xE0100, 0xE01EF)]

/-- The marks across which Lam joins Alef. -/
def isOpenMark (c : Char) : Bool := charWidth c = 0 && !closedMarks.has c

/-- The characters with a shape as text that are pictures without a selector. The squared ideographs
keep their width. -/
def hasTextShape (c : Char) : Bool :=
  selectable.has c && emoji.has c && !CharRanges.has [(0x1F200, 0x1F2FF)] c

/-! ## 2. What stands behind -/

/-- A selector, which says how the character in front of it is shown. -/
inductive Selector where
  | picture
  | text
  | full
deriving DecidableEq, Repr

/-- The selector that a character is. -/
def Selector.ofChar? (c : Char) : Option Selector :=
  if c.toNat = 0xFE0F then some .picture
  else if c.toNat = 0xFE0E then some .text
  else if c.toNat = 0xFE01 then some .full
  else none

/-- The beginnings of shapes that are made of more than one letter. -/
inductive Ligature where
  /-- A Hebrew Lamed. -/
  | lamed
  /-- A Buginese Ya. -/
  | ya
  /-- A Buginese vowel sign and Ya. -/
  | signAndYa
  /-- A Tifinagh consonant. -/
  | consonant
  /-- The joiner of Tifinagh consonants, and a consonant. -/
  | joinerAndConsonant
  /-- A Lisu tone. -/
  | tone
  /-- The last letter of an Old Turkic ligature. -/
  | orkhon
  /-- A Khmer letter with a form below the line. -/
  | subjoined
  /-- The Kirat Rai vowel sign of which one or two are parts of others. -/
  | vowelE
  /-- The Kirat Rai vowel sign that is part of one other. -/
  | vowelAi
deriving DecidableEq, Repr

/-- What stands behind a character. -/
inductive Behind where
  /-- Nothing that may join the character. -/
  | nothing
  /-- An Alef, and marks in front of it. -/
  | alef
  /-- The beginning of a shape, and whether a joiner stands in front of it. -/
  | letter (which : Ligature) (joined : Bool)
  /-- A picture. -/
  | picture
  /-- A skin tone. -/
  | tone
  /-- Letters of flags, and whether there is more than one. -/
  | flags (many : Bool)
  /-- A joiner and a picture. -/
  | joinedPicture
  /-- The frame of a key, and a joiner and a picture. -/
  | joinedKey
  /-- One letter of a flag, and a joiner and a picture. -/
  | joinedLetter
  /-- Flags, and a joiner and a picture, and whether a letter is left over. -/
  | joinedFlags (spare : Bool)
  /-- The end of a region's name, with so many letters, and a joiner and a picture. -/
  | tagLetters (count : Nat)
  /-- The end of a region's name, with so many digits, and a joiner and a picture. -/
  | tagDigits (count : Nat)
deriving DecidableEq, Repr

/-- What stands behind a character, and the selector in front of it. -/
structure Context where
  behind : Behind
  selector : Option Selector
deriving DecidableEq, Repr

namespace Behind

/-- What a character is for the character in front of it, if it joins nothing itself. -/
def ofChar (c : Char) : Behind :=
  if c.toNat = 0x05DC then .letter .lamed false
  else if isAlef c then .alef
  else if isSubjoined c then .letter .subjoined false
  else if c.toNat = 0x1A10 then .letter .ya false
  else if isTifinagh c then .letter .consonant false
  else if isSecondTone c then .letter .tone false
  else if c.toNat = 0x10C03 then .letter .orkhon false
  else if c.toNat = 0x16D67 then .letter .vowelE false
  else if c.toNat = 0x16D68 then .letter .vowelAi false
  else if isFlagLetter c then .flags false
  else if isTone c then .tone
  else if emoji.has c then .picture
  else .nothing

/-- What is left with a selector in front of it: letters join across selectors, and what a joiner
holds stays for the picture in front of it. -/
def across (selector : Selector) : Behind → Behind
  | .alef => .alef
  | .letter which joined => .letter which joined
  | .joinedPicture => if selector = .picture then .joinedPicture else .nothing
  | .joinedKey => if selector = .picture then .joinedKey else .nothing
  | _ => .nothing

/-- What is left where the selector in front of it selects nothing. -/
def unselected : Behind → Behind
  | .alef => .alef
  | .letter which joined => .letter which joined
  | _ => .nothing

/-- Whether a joiner in front of it holds on to it. -/
def isJoined : Behind → Bool
  | .joinedPicture | .joinedKey => true
  | _ => false

/-! ## 3. Joining -/

/-- The places that a letter adds where it joins the beginning of a shape, and what both are for the
character in front of them. A shape takes the places of one letter, whatever its parts have taken so
far. -/
def joinLetter? (code : Nat) (c : Char) : Ligature → Bool → Option (Int × Behind)
  | .lamed, true => if code = 0x05D0 then some (0, .nothing) else none
  | .ya, true => if code = 0x1A17 then some (0, .letter .signAndYa true) else none
  | .signAndYa, _ => if code = 0x1A15 then some (0, .nothing) else none
  | .consonant, joined =>
    if code = 0x2D7F then some (1, .letter .joinerAndConsonant false)
    else if joined && isTifinagh c then some (0, .nothing) else none
  | .joinerAndConsonant, _ => if isTifinagh c then some (-1, .nothing) else none
  | .tone, _ => if isFirstTone c then some (0, .nothing) else none
  | .orkhon, true => if code = 0x10C32 then some (0, .nothing) else none
  | .subjoined, _ => if code = 0x17D2 then some (-1, .nothing) else none
  | .vowelE, _ =>
    if code = 0x16D63 || code = 0x16D69 then some (0, .nothing)
    else if code = 0x16D67 then some (0, .letter .vowelE false)
    else if code = 0x16D68 then some (1, .letter .vowelE false)
    else none
  | .vowelAi, _ => if code = 0x16D63 then some (0, .nothing) else none
  | _, _ => none

/-- The places that a character adds where it joins what stands behind it, and what both are for the
character in front of them. -/
def join? (c : Char) : Behind → Option (Int × Behind)
  | .nothing => none
  | .alef =>
    if isLam c then some (0, .nothing)
    else if isOpenMark c then some (0, .alef)
    else none
  | .letter which joined =>
    if isJoiner c then some (0, .letter which true)
    else if isTransparent c then some (0, .letter which joined)
    else joinLetter? c.toNat c which joined
  | .picture => if isJoiner c then some (0, .joinedPicture) else none
  | .tone =>
    if toneBases.has c then some (0, .picture)
    else if isJoiner c then some (0, .joinedPicture)
    else none
  | .flags many =>
    if isFlagLetter c then some (1, .flags true)
    else if many && isJoiner c then some (0, .joinedPicture)
    else none
  | .joinedPicture =>
    if c.toNat = 0x20E3 then some (0, .joinedKey)
    else if isFlagLetter c then some (1, .joinedLetter)
    else if isTone c then some (0, .tone)
    else if c.toNat = 0xE007F then some (0, .tagLetters 0)
    else if emoji.has c then some (0, .picture)
    else none
  | .joinedKey => none
  | .joinedLetter => if isFlagLetter c then some (-1, .joinedFlags false) else none
  | .joinedFlags spare =>
    if isFlagLetter c then some (if spare then -1 else 3, .joinedFlags !spare)
    else if isJoiner c then some (0, .joinedPicture)
    else none
  | .tagLetters count =>
    if isTagLetter c && count < 6 then some (0, .tagLetters (count + 1))
    else if isTagDigit c && count < 5 then some (0, .tagDigits 1)
    else if c.toNat = 0x1F3F4 && 3 ≤ count then some (0, .picture)
    else none
  | .tagDigits count =>
    if isTagDigit c && count < 3 then some (0, .tagDigits (count + 1))
    else if c.toNat = 0x1F3F4 && count = 3 then some (0, .picture)
    else none

end Behind

/-! ## 4. Texts -/

namespace Context

/-- Nothing stands behind the last character. -/
def start : Context := ⟨.nothing, none⟩

/-- The places that a character adds in front of what no selector separates from it, and what stands
behind the next. -/
def beforePlain (c : Char) (behind : Behind) : Int × Context :=
  match behind.join? c with
  | some (places, joined) => (places, ⟨joined, none⟩)
  | none => (charWidth c, ⟨.ofChar c, none⟩)

/-- The places that a character adds, unless a selector behind it asks for its picture, and what
stands behind the next. -/
def beforeText (c : Char) (context : Context) : Int × Context :=
  if c.toNat ≤ 0xA0 then (1, start)
  else
    match Selector.ofChar? c, context.selector with
    | some selector, _ => (0, ⟨context.behind.across selector, some selector⟩)
    | none, some .text =>
      if hasTextShape c then (1, start) else beforePlain c context.behind.unselected
    | none, some .full =>
      if isQuotationMark c then (2, start) else beforePlain c context.behind.unselected
    | none, _ => beforePlain c context.behind

/-- **The places that a character adds, and what stands behind the next.** -/
def before (c : Char) (context : Context) : Int × Context :=
  if context.selector = some .picture then
    if selectable.has c then
      (if context.behind.isJoined then 0 else 2, ⟨.picture, none⟩)
    else beforeText c ⟨context.behind.unselected, none⟩
  else beforeText c context

end Context

/-- One more character read, towards the front of a text: the places so far, and what stands behind
the next. -/
def Context.read (c : Char) (behind : Int × Context) : Int × Context :=
  let (places, context) := Context.before c behind.2
  (behind.1 + places, context)

/-- **The places that a text without line breaks takes.** -/
def displayWidth (s : String) : Nat :=
  (s.toList.foldr Context.read (0, .start)).1.toNat

end InteropTables
