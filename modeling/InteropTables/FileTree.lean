import InteropTables.Text.Path

/-!
# Files and folders

What a run reads and writes is a tree of folders and files. Names are texts, so a name whose bytes
are no valid text has no place here. A folder whose entries can be listed can also be entered: the
rights to list a folder and to look at what is in it are not told apart. What is below a folder that
cannot be entered is met here only in another form, under a path that is too long (`Path.isUsable`).

* `FileTree`: files, folders, and folders whose entries cannot be listed;
* `FileTree.at?`: the entry at a sequence of names;
* `FileTree.locate?`: the sequence of names that a path leads to, through existing folders;
* `FileTree.put`: the tree with a file set, in a folder that exists;
* `FileTree.graft`: the tree with any entry set, and with the folders that lead to it.
-/

namespace InteropTables

/-- An entry of a file system. -/
inductive FileTree where
  /-- A file. -/
  | file (content : ByteArray)
  /-- A folder with its entries in some order. -/
  | folder (entries : List (String × FileTree))
  /-- A folder whose entries cannot be listed. -/
  | locked

namespace FileTree

/-! ## 1. Looking up -/

/-- The entry at a sequence of names. -/
def at? : FileTree → List String → Option FileTree
  | t, [] => some t
  | .folder entries, name :: names => (entries.lookup name).bind fun t => t.at? names
  | _, _ :: _ => none

/-- Whether an entry is a folder. -/
def isFolder : FileTree → Bool
  | file _ => false
  | folder _ => true
  | locked => true

/-- The names that steps lead to, starting below the names in `above` (innermost first). Every step
is taken from a folder; a step up undoes the last step down, and stays at the root. The last of the
names need not exist. -/
def locate? (t : FileTree) : (above steps : List String) → Option (List String)
  | above, [] => some above.reverse
  | above, step :: steps =>
    if (t.at? above.reverse).any isFolder then
      t.locate? (if step = Path.up then above.drop 1 else step :: above) steps
    else none

/-! ## 2. Writing -/

/-- The entries with one of them set. -/
def setEntry (name : String) (entry : FileTree) :
    List (String × FileTree) → List (String × FileTree)
  | [] => [(name, entry)]
  | (other, t) :: rest =>
    if other = name then (name, entry) :: rest else (other, t) :: setEntry name entry rest

/-- The tree with a file at a sequence of names. Only the last name may be new. -/
def put (content : ByteArray) : List String → FileTree → Option FileTree
  | [], file _ => some (file content)
  | [name], folder entries =>
    match entries.lookup name with
    | some t => (put content [] t).map fun t => folder (setEntry name t entries)
    | none => some (folder (setEntry name (file content) entries))
  | name :: names, folder entries =>
    match entries.lookup name with
    | some t => (put content names t).map fun t => folder (setEntry name t entries)
    | none => none
  | _, _ => none

/-- The tree with an entry at a sequence of names. Folders that lead to it are made where there is
no folder yet. -/
def graft : FileTree → (names : List String) → (entry : FileTree) → FileTree
  | _, [], entry => entry
  | folder entries, name :: names, entry =>
    folder (setEntry name (graft ((entries.lookup name).getD (folder [])) names entry) entries)
  | _, name :: names, entry => folder [(name, graft (folder []) names entry)]

theorem lookup_setEntry (name other : String) (entry : FileTree)
    (entries : List (String × FileTree)) :
    (setEntry name entry entries).lookup other
      = if other = name then some entry else entries.lookup other := by
  induction entries with
  | nil => by_cases h : other = name <;> simp [setEntry, List.lookup_cons, h, beq_false_of_ne]
  | cons e rest ih =>
    obtain ⟨n, t⟩ := e
    simp only [setEntry]
    by_cases hn : n = name
    · by_cases h : other = name <;> simp_all [List.lookup_cons, beq_false_of_ne]
    · by_cases h : other = n
      · have : other ≠ name := fun e => hn (h ▸ e)
        simp_all
      · simp [hn, List.lookup_cons, ih, beq_false_of_ne h]

end FileTree

end InteropTables
