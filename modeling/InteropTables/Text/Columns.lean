import InteropTables.Text.Breaking

/-!
# Text in columns

A listing is printed with every column as wide as its widest cell or heading, up to a limit, and two
blanks between columns. A row takes as many lines as its tallest cell. Lines are indented, and
nothing but blanks at their ends is dropped.

* `isBlankChar`: the characters that show as gaps;
* `Listing`: headings and rows; `Listing.lines`: the listing as lines.
-/

namespace InteropTables

/-! ## 1. Blanks -/

/-- Whether a character shows as a gap. -/
def isBlankChar (c : Char) : Bool :=
  CharRanges.has [(0x09, 0x0D), (0x20, 0x20), (0x85, 0x85), (0xA0, 0xA0), (0x1680, 0x1680),
    (0x2000, 0x200A), (0x2028, 0x2029), (0x202F, 0x202F), (0x205F, 0x205F), (0x3000, 0x3000)] c

/-! ## 2. Listings -/

/-- Headings, and rows with one cell for each heading. -/
structure Listing where
  headings : List String
  rows : List (List String)
deriving DecidableEq, Repr

namespace Listing

/-- The blanks in front of every line. -/
def margin : String := "  "

/-- The blanks between two columns. -/
def gap : String := "  "

/-- The most places that a column takes. -/
def widest : Nat := 65535

/-- The lines of a cell as its text gives them. -/
def givenLines (cell : String) : List String :=
  cell.splitOn "\n"

/-- The lines of a cell in a column. A line that is wider than the column is broken. -/
def cellLines (width : Nat) (cell : String) : List String :=
  (givenLines cell).flatMap fun line =>
    if width < displayWidth line then breakText width line else [line]

/-- The places that the longest line of a cell takes. -/
def cellWidth (cell : String) : Nat :=
  ((givenLines cell).map displayWidth).foldl max 0

/-- The widths of the columns. A column has at least one place. -/
def widths (t : Listing) : List Nat :=
  (t.rows.foldl (fun widths row => widths.zipWith (fun w cell => max w (cellWidth cell)) row)
    (t.headings.map cellWidth)).map fun width => max 1 (min width widest)

/-- A text with blanks behind it up to a width. -/
def padTo (width : Nat) (text : String) : String :=
  text ++ String.ofList (List.replicate (width - displayWidth text) ' ')

/-- A text without the blanks at its end. -/
def trimRight (s : String) : String :=
  String.ofList (s.toList.reverse.dropWhile isBlankChar).reverse

/-- One line of a row, for given widths and with one text for each column. -/
def line (widths : List Nat) (texts : List String) : String :=
  margin ++ trimRight (gap.intercalate (widths.zipWith padTo texts))

/-- The lines of a row, for given widths. Where a cell has no more lines its column stays blank. -/
def rowLines (widths : List Nat) (row : List String) : List String :=
  let cells := widths.zipWith cellLines row
  let height := (cells.map List.length).foldl max 0
  (List.range height).map fun i => line widths (cells.map fun lines => lines[i]?.getD "")

/-- The listing as lines, the headings first. -/
def lines (t : Listing) : List String :=
  (t.headings :: t.rows).flatMap (rowLines t.widths)

end Listing

end InteropTables
