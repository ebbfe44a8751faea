/-!
# File paths

A path is a text whose parts are separated by slashes. Empty parts and single dots name no step,
two dots name the folder above.

* `Path.parts`: the steps of a path;
* `Path.isUsable`: whether a path may lead anywhere;
* `Path.fileName?`: the last step, if it names an entry;
* `Path.stem?`, `Path.extension?`: the file name in front of its last dot, and what follows it.
-/

namespace InteropTables

namespace Path

/-! ## 1. Steps -/

/-- The parts of a text between the separators. -/
def splitOn (separator : Char) (text : List Char) : List (List Char) :=
  text.foldr (fun c parts =>
    if c = separator then [] :: parts
    else match parts with
      | [] => [[c]]
      | part :: rest => (c :: part) :: rest) [[]]

theorem splitOn_ne_nil (separator : Char) (text : List Char) : splitOn separator text ≠ [] := by
  cases text with
  | nil => simp [splitOn]
  | cons c cs =>
    simp only [splitOn, List.foldr_cons]
    split
    · simp
    · split <;> simp

/-- Whether a part names a step. -/
def isStep (part : List Char) : Bool :=
  part != [] && part != ['.']

/-- The step to the folder above. -/
def up : String := ".."

/-- The steps of a path. -/
def parts (path : String) : List String :=
  ((splitOn '/' path.toList).filter isStep).map String.ofList

/-- Whether a path asks for a folder: its last part is empty or a single dot. -/
def endsInFolder (path : String) : Bool :=
  (splitOn '/' path.toList).getLast?.any fun part => !isStep part

/-- Whether a path starts at the root of all folders. -/
def isAbsolute (path : String) : Bool :=
  path.toList.head? == some '/'

/-- The most bytes that one part of a path may have. -/
def longestPart : Nat := 255

/-- The most bytes that a path may have. -/
def longest : Nat := 4095

/-- Whether a path may lead anywhere. The empty path, paths and parts that are too long and paths
with a zero character lead nowhere. -/
def isUsable (path : String) : Bool :=
  path != "" && path.utf8ByteSize ≤ longest && !path.toList.contains '\x00' &&
    (splitOn '/' path.toList).all fun part => (String.ofList part).utf8ByteSize ≤ longestPart

/-- A path below another. -/
def join (folder name : String) : String :=
  if folder.toList.getLast? == some '/' then folder ++ name else folder ++ "/" ++ name

/-! ## 2. File names -/

/-- The last step, unless it leads to the folder above. -/
def fileName? (path : String) : Option String :=
  (parts path).getLast?.filter (· != up)

/-- A file name in front of its last dot, and what follows that dot. A dot at the front of the name
belongs to the stem. -/
def splitExtension (name : String) : String × Option String :=
  let reversed := name.toList.reverse
  let behind := reversed.takeWhile (· != '.')
  match reversed.dropWhile (· != '.') with
  | _ :: c :: front => (String.ofList (c :: front).reverse, some (String.ofList behind.reverse))
  | _ => (name, none)

/-- The file name of a path in front of its last dot. -/
def stem? (path : String) : Option String :=
  (fileName? path).map fun name => (splitExtension name).1

/-- What follows the last dot of the file name of a path. -/
def extension? (path : String) : Option String :=
  (fileName? path).bind fun name => (splitExtension name).2

end Path

end InteropTables
