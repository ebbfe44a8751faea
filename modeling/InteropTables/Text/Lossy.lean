import InteropTables.Bytes

/-!
# Text from bytes that may not be UTF-8

Names in the metadata directory are read even when they are not valid UTF-8: every longest stretch
of bytes that could begin a character, but does not complete one, is shown as the replacement
character.

* `Lossy.damaged`: how many bytes such a stretch takes;
* `Lossy.decode`: the text of a block;
* `Lossy.damaged_pos`: a stretch takes at least one byte, so decoding ends.
-/

namespace InteropTables

namespace Lossy

/-- The character that stands for bytes which are no text. -/
def replacement : Char :=
  Char.ofNat 0xFFFD

/-- Whether a byte continues a character. -/
def isTail (b : UInt8) : Bool :=
  0x80 ≤ b && b ≤ 0xBF

/-- Whether `second` may follow `lead` in a character of two or more bytes. The narrower ranges
keep out overlong forms, surrogates and numbers beyond the last character. -/
def mayFollow (lead second : UInt8) : Bool :=
  if lead < 0xC2 || lead > 0xF4 then false
  else if lead = 0xE0 then 0xA0 ≤ second && second ≤ 0xBF
  else if lead = 0xED then 0x80 ≤ second && second ≤ 0x9F
  else if lead = 0xF0 then 0x90 ≤ second && second ≤ 0xBF
  else if lead = 0xF4 then 0x80 ≤ second && second ≤ 0x8F
  else isTail second

/-- The length of the damaged stretch at the start of `lead`, `second`, `third`: the bytes that
could still begin a character. Used only where no complete character stands. -/
def damaged (lead : UInt8) (second third : Option UInt8) : Nat :=
  match second with
  | some second =>
    if mayFollow lead second && 0xE0 ≤ lead then
      match third with
      | some third => if isTail third && 0xF0 ≤ lead then 3 else 2
      | none => 2
    else 1
  | none => 1

theorem damaged_pos (lead : UInt8) (second third : Option UInt8) :
    0 < damaged lead second third := by
  unfold damaged
  split
  · split
    · split
      · split <;> simp
      · simp
    · simp
  · simp

/-- The characters from place `i` on, in front of which `read` already stand. -/
def decodeFrom (data : ByteArray) (i : Nat) (read : List Char) : List Char :=
  if h : i < data.size then
    match data.utf8DecodeChar? i with
    | some c => decodeFrom data (i + c.utf8Size) (c :: read)
    | none => decodeFrom data (i + damaged data[i] data[i + 1]? data[i + 2]?) (replacement :: read)
  else read.reverse
termination_by data.size - i
decreasing_by
  · have := c.utf8Size_pos
    omega
  · have := damaged_pos data[i] data[i + 1]? data[i + 2]?
    omega

/-- The text of a block, with replacement characters for all that is no UTF-8. -/
def decode (data : ByteArray) : String :=
  String.ofList (decodeFrom data 0 [])

end Lossy

end InteropTables
