import InteropTables.Workspace

/-!
# The modules that arguments name

An argument names a module or a folder. A folder stands for all modules below it, at any depth, in
the order of their paths, whatever order the file system lists them in.

* `isModuleName`: which files in a folder are taken for modules;
* `FileTree.modulesBelow`: the modules below a folder;
* `expandInputs`: the modules that a list of arguments names.
-/

namespace InteropTables

/-- Whether a file name has the extension of a module. -/
def isModuleName (name : String) : Bool :=
  Path.extension? name == some "dll" || Path.extension? name == some "exe"

/-- A file below a folder: the names that lead to it, and its path. -/
structure Found where
  steps : List String
  path : String
deriving DecidableEq, Repr

/-- The file with a given path, if it is named like a module; `above` holds the names that lead to
it (last one first). -/
def moduleNamed (path : String) (above : List String) : List Found :=
  if isModuleName path then [⟨above.reverse, path⟩] else []

mutual

/-- The modules at or below an entry with a given path; `above` holds the names that lead to it
(last one first). A folder that cannot be listed is a failure, given by its path. A folder that its
path cannot lead to goes by its name, like a file. -/
def FileTree.modulesAt (path : String) (above : List String) : FileTree → Except String (List Found)
  | .file _ => .ok (moduleNamed path above)
  | .locked => if Path.isUsable path then .error path else .ok (moduleNamed path above)
  | .folder entries =>
    if Path.isUsable path then modulesIn path above entries else .ok (moduleNamed path above)

/-- The modules below the entries of a folder. -/
def modulesIn (path : String) (above : List String) :
    List (String × FileTree) → Except String (List Found)
  | [] => .ok []
  | (name, t) :: rest => do
    let here ← t.modulesAt (Path.join path name) (name :: above)
    let others ← modulesIn path above rest
    return here ++ others

end

/-- The paths of the modules below a folder, in their order. -/
def FileTree.modulesBelow (path : String) (folder : FileTree) : Except String (List String) := do
  let found ← folder.modulesAt path []
  return (found.mergeSort fun a b => (compare a.steps b.steps).isLE).map (·.path)

/-- The modules that one argument names: the argument itself, unless it leads to a folder. -/
def expandInput (files : Workspace) (path : String) : Except String (List String) :=
  match (files.find? path).filter FileTree.isFolder with
  | some folder => folder.modulesBelow path
  | none => .ok [path]

/-- The modules that all arguments name, in the order of the arguments. -/
def expandInputs (files : Workspace) (paths : List String) : Except String (List String) := do
  return (← paths.mapM (expandInput files)).flatten

end InteropTables
