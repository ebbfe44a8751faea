/-!
# JSON text

The data that a command prints for other programs, written with one field or element on a line and
two blanks for every level.

* `Json`: texts, numbers, lists and objects whose fields keep their order;
* `Json.quote`: a text in quotes, with everything escaped that may not stand between them;
* `Json.pretty`: the text of a value.
-/

namespace InteropTables

/-- A JSON value. -/
inductive Json where
  | text (s : String)
  | number (n : Nat)
  | list (elements : List Json)
  | object (fields : List (String × Json))

namespace Json

/-- A hexadecimal digit. -/
def hexDigit (n : Nat) : Char :=
  (Nat.digitChar n)

/-- A character between quotes: quotes and backslashes are escaped, and so are all characters below
the blank, some of which have a letter of their own. -/
def quoteChar (c : Char) : List Char :=
  if c = '"' then ['\\', '"']
  else if c = '\\' then ['\\', '\\']
  else if c = '\n' then ['\\', 'n']
  else if c = '\r' then ['\\', 'r']
  else if c = '\t' then ['\\', 't']
  else if c.toNat = 8 then ['\\', 'b']
  else if c.toNat = 12 then ['\\', 'f']
  else if c.toNat < 32 then
    ['\\', 'u', '0', '0', hexDigit (c.toNat / 16), hexDigit (c.toNat % 16)]
  else [c]

/-- A text in quotes. -/
def quote (s : String) : String :=
  String.ofList ('"' :: s.toList.flatMap quoteChar ++ ['"'])

/-- The blanks in front of a line at a given level. -/
def indent (level : Nat) : String :=
  String.ofList (List.replicate (2 * level) ' ')

/-- Items between brackets, each on a line of its own; nothing stands between the brackets when
there is no item. -/
def block (opening closing : String) (level : Nat) (items : List String) : String :=
  if items.isEmpty then opening ++ closing
  else
    opening ++ "\n" ++ ",\n".intercalate (items.map (indent (level + 1) ++ ·)) ++ "\n" ++
      indent level ++ closing

mutual

/-- The text of a value at a given level. -/
def prettyAt (level : Nat) : Json → String
  | .text s => quote s
  | .number n => toString n
  | .list elements => block "[" "]" level (prettyElements (level + 1) elements)
  | .object fields => block "\x7b" "\x7d" level (prettyFields (level + 1) fields)

/-- The texts of the elements of a list. -/
def prettyElements (level : Nat) : List Json → List String
  | [] => []
  | x :: xs => prettyAt level x :: prettyElements level xs

/-- The texts of the fields of an object. -/
def prettyFields (level : Nat) : List (String × Json) → List String
  | [] => []
  | (name, x) :: rest => (quote name ++ ": " ++ prettyAt level x) :: prettyFields level rest

end

/-- The text of a value. -/
def pretty (x : Json) : String :=
  prettyAt 0 x

end Json

end InteropTables
