import InteropTables.Fault
import InteropTables.FileTree

/-!
# Files as a run sees them

A run works in a folder. Paths start there, or at the root if they say so.

* `Workspace`: all files, and the folder where paths start;
* `Workspace.find?`, `Workspace.read`: an entry, and the bytes of a file;
* `Workspace.write`: the files with one of them written.
-/

namespace InteropTables

/-- A tree of files, and a folder in it where paths start. -/
structure Workspace where
  root : FileTree
  /-- The names that lead to the folder where paths start. -/
  folder : List String := []

namespace Workspace

/-- The names that a path leads to; the last of them need not exist. -/
def locate? (w : Workspace) (path : String) : Option (List String) :=
  if Path.isUsable path then
    w.root.locate? (if Path.isAbsolute path then [] else w.folder.reverse) (Path.parts path)
  else none

/-- The entry that a path leads to. A path that ends like a folder leads to folders only. -/
def find? (w : Workspace) (path : String) : Option FileTree := do
  let found ← w.root.at? (← w.locate? path)
  guard (found.isFolder || !Path.endsInFolder path)
  return found

/-- The bytes of the file that a path leads to. -/
def read (w : Workspace) (path : String) : Except Fault ByteArray :=
  match w.find? path with
  | some (.file content) => .ok content
  | _ => .error .fileAccess

/-- The files with one of them written. Its folder must exist. -/
def write (w : Workspace) (path : String) (content : ByteArray) : Except Fault Workspace :=
  if Path.endsInFolder path then .error .fileAccess
  else
    match (w.locate? path).bind fun names => w.root.put content names with
    | some root => .ok { w with root }
    | none => .error .fileAccess

end Workspace

end InteropTables
