import InteropTables.Workspace

/-!
# What a write changes

Writing a file sets what stands in one place, and leaves alone what stands in every other. Folders
stay as they are, so paths lead where they led; whether there is a place to write to does not depend
on what is written; and of two writes to one place the second one counts.

* `Entry`, `FileTree.entryAt`: what stands in a place;
* `entryAt_put`, `put_put`, `isSome_put`: one write, one after another, and whether there is room;
* `locate?_put`: paths after a write;
* `Workspace.WrittenAt`: files of which one was written;
* `writtenAt_of_write`, `write_write`, `write_cases`: **writing to a path**;
* `WrittenAt.read_eq_ok_iff`: reading after it.
-/

namespace InteropTables

/-- What stands in a place of a tree, a folder without its entries. -/
inductive Entry where
  | file (content : ByteArray)
  | folder

namespace FileTree

/-! ## 1. Trees -/

/-- The entry at the root of a tree. -/
def entry : FileTree → Entry
  | file content => .file content
  | folder _ => .folder
  | locked => .folder

/-- What stands at a sequence of names, if anything does. -/
def entryAt (t : FileTree) (names : List String) : Option Entry :=
  (t.at? names).map entry

theorem entryAt_nil (t : FileTree) : t.entryAt [] = some t.entry := by
  cases t <;> rfl

theorem entryAt_cons (entries : List (String × FileTree)) (name : String) (names : List String) :
    (folder entries).entryAt (name :: names)
      = (entries.lookup name).bind fun t => t.entryAt names := by
  show ((entries.lookup name).bind fun t => t.at? names).map entry = _
  cases entries.lookup name <;> rfl

/-- Below a file there is nothing. -/
theorem entryAt_file_cons (content : ByteArray) (name : String) (names : List String) :
    (file content).entryAt (name :: names) = none := rfl

theorem any_isFolder_at? (t : FileTree) (names : List String) :
    (t.at? names).any isFolder = true ↔ t.entryAt names = some .folder := by
  unfold entryAt
  cases t.at? names with
  | none => exact ⟨fun h => (nomatch h), fun h => (nomatch h)⟩
  | some found => cases found <;> simp [isFolder, entry]

/-- One step of a write. Only the last name may be new. -/
theorem put_cons (content : ByteArray) (name : String) (names : List String)
    (entries : List (String × FileTree)) :
    put content (name :: names) (folder entries) = match entries.lookup name with
      | some t => (put content names t).map fun t => folder (setEntry name t entries)
      | none => if names = [] then some (folder (setEntry name (file content) entries))
          else none := by
  cases names with
  | nil => rfl
  | cons next names => cases h : entries.lookup name <;> simp [put, h]

/-- Nothing is written below a file. -/
@[simp] theorem put_cons_file (content old : ByteArray) (name : String) (names : List String) :
    put content (name :: names) (file old) = none := by
  cases names <;> rfl

/-- Nothing is written into a locked folder. -/
@[simp] theorem put_cons_locked (content : ByteArray) (name : String) (names : List String) :
    put content (name :: names) locked = none := by
  cases names <;> rfl

/-- **A write sets one place**, which was no folder. The induction is on the names that lead to it;
what stands beside each of them is not touched. -/
theorem entryAt_put {content : ByteArray} {names : List String} :
    ∀ {t t' : FileTree}, put content names t = some t' → t.entryAt names ≠ some .folder ∧
      ∀ other, t'.entryAt other = if other = names then some (.file content)
        else t.entryAt other := by
  induction names with
  | nil =>
    intro t t' h
    cases t with
    | file old =>
      obtain rfl := Option.some.inj h
      refine ⟨fun h => (nomatch h), fun other => ?_⟩
      cases other with
      | nil => rw [if_pos rfl, entryAt_nil, entry]
      | cons name names => rw [if_neg (List.cons_ne_nil _ _), entryAt_file_cons, entryAt_file_cons]
    | _ => cases h
  | cons name names ih =>
    intro t t' h
    cases t with
    | folder entries =>
      rw [put_cons] at h
      -- Either the first name is that of an entry, or it is the last name and new.
      obtain ⟨inner, rfl, hfree, hinner⟩ : ∃ inner, t' = folder (setEntry name inner entries) ∧
          ((entries.lookup name).bind fun t => t.entryAt names) ≠ some .folder ∧
          ∀ other, inner.entryAt other = if other = names then some (.file content)
            else (entries.lookup name).bind fun t => t.entryAt other := by
        split at h
        · rename_i t hname
          obtain ⟨inner, hput, rfl⟩ := Option.map_eq_some_iff.1 h
          obtain ⟨hfree, hinner⟩ := ih hput
          rw [hname]
          exact ⟨inner, rfl, hfree, hinner⟩
        · rename_i hname
          rw [hname]
          split at h
          · rename_i hlast
            subst hlast
            refine ⟨_, (Option.some.inj h).symm, fun h => (nomatch h), fun other => ?_⟩
            cases other with
            | nil => rw [if_pos rfl, entryAt_nil, entry]
            | cons next names =>
              rw [if_neg (List.cons_ne_nil _ _), entryAt_file_cons]
              rfl
          · cases h
      refine ⟨by rwa [entryAt_cons], fun other => ?_⟩
      cases other with
      | nil => rw [if_neg (List.cons_ne_nil _ _).symm, entryAt_nil, entryAt_nil, entry, entry]
      | cons first other =>
        rw [entryAt_cons, entryAt_cons, lookup_setEntry]
        by_cases hfirst : first = name
        · subst hfirst
          rw [if_pos rfl, Option.bind_some, hinner]
          simp only [List.cons.injEq, true_and]
        · rw [if_neg hfirst, if_neg fun h => hfirst (List.cons.inj h).1]
    | _ => simp at h

/-- An entry that is set twice is what it was set to last. -/
theorem setEntry_setEntry (name : String) (first second : FileTree)
    (entries : List (String × FileTree)) :
    setEntry name second (setEntry name first entries) = setEntry name second entries := by
  induction entries with
  | nil => simp [setEntry]
  | cons e entries ih =>
    obtain ⟨other, t⟩ := e
    by_cases hother : other = name
    · simp only [setEntry, if_pos hother, if_pos]
    · simp only [setEntry, if_neg hother, ih]

/-- **Of two writes to one place the second one counts.** -/
theorem put_put {first second : ByteArray} {names : List String} :
    ∀ {t t' : FileTree}, put first names t = some t' →
      put second names t' = put second names t := by
  induction names with
  | nil =>
    intro t t' h
    cases t with
    | file old =>
      obtain rfl := Option.some.inj h
      rfl
    | _ => cases h
  | cons name names ih =>
    intro t t' h
    cases t with
    | folder entries =>
      rw [put_cons] at h
      split at h
      · rename_i t hname
        obtain ⟨inner, hput, rfl⟩ := Option.map_eq_some_iff.1 h
        rw [put_cons, put_cons, lookup_setEntry, if_pos rfl, hname]
        simp only [ih hput, setEntry_setEntry]
      · rename_i hname
        split at h
        · rename_i hlast
          subst hlast
          obtain rfl := Option.some.inj h
          rw [put_cons, put_cons, lookup_setEntry, if_pos rfl, hname]
          simp only [put, Option.map_some, setEntry_setEntry, if_pos]
        · cases h
    | _ => simp at h

/-- Whether there is room for a file does not depend on what is written. -/
theorem isSome_put (first second : ByteArray) {names : List String} :
    ∀ t : FileTree, (put first names t).isSome = (put second names t).isSome := by
  induction names with
  | nil =>
    intro t
    cases t <;> rfl
  | cons name names ih =>
    intro t
    cases t with
    | folder entries =>
      rw [put_cons, put_cons]
      split
      · rw [Option.isSome_map, Option.isSome_map, ih]
      · split <;> rfl
    | _ => simp

/-- Paths lead where they lead because of folders. -/
theorem locate?_congr {t t' : FileTree}
    (h : ∀ names, t'.entryAt names = some .folder ↔ t.entryAt names = some .folder)
    (steps : List String) : ∀ above, t'.locate? above steps = t.locate? above steps := by
  have hfolder : ∀ names, (t'.at? names).any isFolder = (t.at? names).any isFolder := by
    intro names
    rw [Bool.eq_iff_iff, any_isFolder_at?, any_isFolder_at?, h]
  induction steps with
  | nil => exact fun _ => rfl
  | cons step steps ih =>
    intro above
    unfold locate?
    rw [hfolder, ih]

theorem entryAt_put_folder {content : ByteArray} {names : List String} {t t' : FileTree}
    (h : put content names t = some t') (other : List String) :
    t'.entryAt other = some .folder ↔ t.entryAt other = some .folder := by
  obtain ⟨hfree, hentries⟩ := entryAt_put h
  rw [hentries]
  split
  · rename_i hsame
    rw [hsame]
    exact ⟨fun h => (nomatch h), fun h => absurd h hfree⟩
  · exact Iff.rfl

end FileTree

/-! ## 2. Paths -/

namespace Workspace

/-- The files after those of a workspace, of which only the one at a path was written: it has these
bytes, every other place holds what it held, and paths lead where they led. -/
structure WrittenAt (w : Workspace) (path : String) (content : ByteArray) (w' : Workspace) :
    Prop where
  place : ∃ names, w.locate? path = some names ∧ ∀ other,
    w'.root.entryAt other = if other = names then some (.file content) else w.root.entryAt other
  paths : ∀ other, w'.locate? other = w.locate? other

variable {w w' : Workspace} {path : String} {content : ByteArray}

/-- A write sets a file in the place that the path leads to. -/
theorem exists_put_of_write (h : w.write path content = .ok w') :
    Path.endsInFolder path = false ∧ ∃ names root, w.locate? path = some names ∧
      w.root.put content names = some root ∧ w' = { w with root } := by
  unfold write at h
  split at h
  · cases h
  rename_i hpath
  split at h
  · rename_i root hroot
    obtain ⟨names, hnames, hput⟩ := Option.bind_eq_some_iff.1 hroot
    exact ⟨Bool.not_eq_true _ ▸ hpath, names, root, hnames, hput, (Except.ok.inj h).symm⟩
  · cases h

theorem write_of_put (hpath : Path.endsInFolder path = false) {names : List String}
    (hnames : w.locate? path = some names) {root : FileTree}
    (hput : w.root.put content names = some root) : w.write path content = .ok { w with root } := by
  unfold write
  rw [hpath, hnames, Option.bind_some, hput]
  rfl

theorem locate?_put {names : List String} {root : FileTree}
    (hput : w.root.put content names = some root) (other : String) :
    ({ w with root } : Workspace).locate? other = w.locate? other := by
  unfold locate?
  dsimp only
  rw [FileTree.locate?_congr (FileTree.entryAt_put_folder hput)]

/-- **A write changes one file and nothing else.** -/
theorem writtenAt_of_write (h : w.write path content = .ok w') : w.WrittenAt path content w' := by
  obtain ⟨-, names, root, hnames, hput, rfl⟩ := exists_put_of_write h
  exact ⟨⟨names, hnames, (FileTree.entryAt_put hput).2⟩, locate?_put hput⟩

/-- **Of two writes to one path the second one counts.** -/
theorem write_write {content' : ByteArray} (h : w.write path content = .ok w') :
    w'.write path content' = w.write path content' := by
  obtain ⟨hpath, names, root, hnames, hput, rfl⟩ := exists_put_of_write h
  unfold write
  rw [hpath, locate?_put hput, hnames, Option.bind_some, Option.bind_some,
    FileTree.put_put hput]

/-- Where one content can be written every other can. -/
theorem exists_write (h : w.write path content = .ok w') (content' : ByteArray) :
    ∃ w'', w.write path content' = .ok w'' := by
  obtain ⟨hpath, names, root, hnames, hput, rfl⟩ := exists_put_of_write h
  have hroom : (w.root.put content' names).isSome = true := by
    rw [FileTree.isSome_put content' content, hput]
    rfl
  obtain ⟨root', hroot'⟩ := Option.isSome_iff_exists.1 hroom
  exact ⟨_, write_of_put hpath hnames hroot'⟩

/-- There is room for a file at a path, whatever is written, or none at all. -/
theorem write_cases (w : Workspace) (path : String) (content : ByteArray) :
    (∃ w', w.write path content = .ok w') ∨
    (w.write path content = .error .fileAccess ∧
      ∀ content' w', w.write path content' ≠ .ok w') := by
  cases h : w.write path content with
  | ok w' => exact .inl ⟨w', rfl⟩
  | error e =>
    refine .inr ⟨?_, fun content' w' hopen => ?_⟩
    · unfold write at h
      split at h
      · exact h.symm
      split at h
      · cases h
      · exact h.symm
    · obtain ⟨w'', hw''⟩ := exists_write hopen content
      cases h.symm.trans hw''

theorem find?_eq (w : Workspace) (path : String) : w.find? path
    = (w.locate? path).bind fun names => (w.root.at? names).bind fun found =>
        if (found.isFolder || !Path.endsInFolder path) = true then some found else none := by
  unfold find?
  cases w.locate? path with
  | none => rfl
  | some names =>
    rw [Option.bind_some, Option.bind_eq_bind, Option.bind_some]
    cases w.root.at? names with
    | none => rfl
    | some found =>
      rw [Option.bind_some, Option.bind_eq_bind, Option.bind_some]
      cases found.isFolder || !Path.endsInFolder path <;> rfl

/-- What is read at a path is the file in the place that it leads to. -/
theorem read_eq_ok_iff : w.read path = .ok content ↔ Path.endsInFolder path = false ∧
    ∃ names, w.locate? path = some names ∧ w.root.entryAt names = some (.file content) := by
  unfold read FileTree.entryAt
  rw [find?_eq]
  cases w.locate? path with
  | none => simp
  | some names =>
    rw [Option.bind_some]
    cases hfound : w.root.at? names with
    | none => simp [hfound]
    | some found =>
      cases found <;> cases Path.endsInFolder path <;>
        simp [hfound, FileTree.isFolder, FileTree.entry]

/-- **What is read after a write**: the new bytes at the path, and what was read before at every
path that leads elsewhere. -/
theorem WrittenAt.read_eq_ok_iff (h : w.WrittenAt path content w') {other : String}
    {found : ByteArray} : w'.read other = .ok found ↔
      if w.locate? other = w.locate? path then Path.endsInFolder other = false ∧ found = content
      else w.read other = .ok found := by
  obtain ⟨⟨names, hnames, hentries⟩, hpaths⟩ := h
  rw [Workspace.read_eq_ok_iff, Workspace.read_eq_ok_iff, hpaths, hnames]
  split
  · rename_i hsame
    rw [hsame]
    simp only [Option.some.injEq, exists_eq_left', hentries, if_true, Entry.file.injEq, eq_comm]
  · rename_i hother
    refine and_congr_right fun _ => exists_congr fun names' => and_congr_right fun hnames' => ?_
    rw [hentries, if_neg fun hsame => hother (hnames'.trans (congrArg some hsame))]

end Workspace

end InteropTables
