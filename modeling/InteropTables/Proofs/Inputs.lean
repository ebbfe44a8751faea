import InteropTables.Proofs.FolderSearch
import InteropTables.Proofs.Steps

/-!
# The modules that arguments name

Each argument stands for itself, or for the modules below the folder that it leads to. What all of
them stand for is put together in their order, and it is the same in whatever order the file system
lists its entries.

* `Workspace.StandsFor`, `Workspace.Unreadable`: what an argument stands for, and when it fails;
* `standsFor_of_expandInput`, `unreadable_of_expandInput`: **one argument**;
* `Workspace.Relisted`, `Relisted.expandInput_eq`: one argument, with the entries in another order;
* `inputs_exact`: **all arguments**;
* `long_folder_named`: a folder that is taken for a module, and one that is passed over.
-/

namespace InteropTables

namespace Workspace

/-! ## 1. What an argument stands for -/

/-- The folder that a path leads to, if it leads to one. -/
def folderAt? (w : Workspace) (path : String) : Option FileTree :=
  (w.find? path).filter FileTree.isFolder

/-- What an argument stands for: itself, or the modules below the folder that it leads to. -/
structure StandsFor (w : Workspace) (path : String) (list : List String) : Prop where
  itself : w.folderAt? path = none → list = [path]
  modules : ∀ t, w.folderAt? path = some t → t.ModulesOf path list

/-- Below the folder that an argument leads to, or there itself, a folder cannot be listed. -/
def Unreadable (w : Workspace) (path p : String) : Prop :=
  ∃ t steps, w.folderAt? path = some t ∧ FileTree.Meets FileTree.Barred path t steps ∧
    p = Path.below path steps

section

variable {w w' : Workspace} {path : String}

/-- A path leads to a folder if the names that it leads to are those of one. -/
theorem folderAt?_eq_some_iff {t : FileTree} : w.folderAt? path = some t ↔
    ∃ names, w.locate? path = some names ∧ w.root.at? names = some t ∧ t.isFolder = true := by
  rw [folderAt?, Option.filter_eq_some_iff, find?_eq]
  constructor
  · rintro ⟨hfind, hfolder⟩
    obtain ⟨names, hnames, hfind⟩ := Option.bind_eq_some_iff.1 hfind
    obtain ⟨found, hat, hfind⟩ := Option.bind_eq_some_iff.1 hfind
    obtain ⟨-, hfound⟩ := Option.ite_none_right_eq_some.1 hfind
    obtain rfl := Option.some.inj hfound
    exact ⟨names, hnames, hat, hfolder⟩
  · rintro ⟨names, hnames, hat, hfolder⟩
    rw [hnames, Option.bind_some, hat, Option.bind_some, hfolder, Bool.true_or, if_pos rfl]
    exact ⟨rfl, rfl⟩

theorem wellFormed_of_folderAt? {t : FileTree} (hw : w.root.WellFormed)
    (h : w.folderAt? path = some t) : t.WellFormed := by
  obtain ⟨names, -, hat, -⟩ := folderAt?_eq_some_iff.1 h
  exact (FileTree.wellFormed_of_at? hw hat).2

/-- An argument stands for one list. -/
theorem StandsFor.unique {list list' : List String} (h : w.StandsFor path list)
    (h' : w.StandsFor path list') : list = list' := by
  cases hfolder : w.folderAt? path with
  | none => rw [h.itself hfolder, h'.itself hfolder]
  | some t => exact (h.modules t hfolder).unique (h'.modules t hfolder)

/-- One argument is expanded to what it stands for, and nothing below it is unreadable; or it fails
with the path of a folder that is. -/
theorem standsFor_of_expandInput {list : List String} (hw : w.root.WellFormed)
    (h : expandInput w path = .ok list) :
    w.StandsFor path list ∧ ∀ p, ¬ w.Unreadable path p := by
  unfold expandInput at h
  split at h
  · rename_i t ht
    have ht : w.folderAt? path = some t := ht
    obtain ⟨hlist, hfree⟩ := FileTree.modulesOf_of_modulesBelow (wellFormed_of_folderAt? hw ht) h
    refine ⟨⟨fun hnone => ?_, fun t' ht' => ?_⟩, ?_⟩
    · cases hnone.symm.trans ht
    · exact Option.some.inj (ht.symm.trans ht') ▸ hlist
    · rintro p ⟨t', steps, ht', hbarred, -⟩
      obtain rfl := Option.some.inj (ht.symm.trans ht')
      exact hfree steps hbarred
  · rename_i hnone
    have hnone : w.folderAt? path = none := hnone
    obtain rfl := Except.ok.inj h
    refine ⟨⟨fun _ => rfl, fun t ht => ?_⟩, ?_⟩
    · cases hnone.symm.trans ht
    · rintro p ⟨t, steps, ht, -⟩
      cases hnone.symm.trans ht

theorem unreadable_of_expandInput {p : String} (hw : w.root.WellFormed)
    (h : expandInput w path = .error p) : w.Unreadable path p := by
  unfold expandInput at h
  split at h
  · rename_i t ht
    have ht : w.folderAt? path = some t := ht
    have hwf : t.WellFormed := wellFormed_of_folderAt? hw ht
    obtain ⟨steps, hbarred, rfl⟩ := FileTree.barred_of_modulesBelow hwf h
    exact ⟨t, steps, ht, hbarred, rfl⟩
  · cases h

/-! ## 2. Other orders of the entries -/

/-- The same files and folders, whatever order the folders are listed in. -/
structure Relisted (w w' : Workspace) : Prop where
  root : w.root.Same w'.root
  folder : w'.folder = w.folder

theorem Relisted.symm (h : w.Relisted w') : w'.Relisted w :=
  ⟨h.root.symm, h.folder.symm⟩

/-- Paths lead where they led. -/
theorem Relisted.locate?_eq (h : w.Relisted w') (path : String) :
    w'.locate? path = w.locate? path := by
  have hfolders : ∀ names, w'.root.entryAt names = some .folder ↔
      w.root.entryAt names = some .folder := fun _ =>
    ⟨h.root.symm.entryAt_folder, h.root.entryAt_folder⟩
  unfold locate?
  rw [h.folder, FileTree.locate?_congr hfolders]

/-- A folder in one order of the entries is a folder in the other. -/
theorem Relisted.exists_folderAt? (h : w.Relisted w') {t : FileTree}
    (ht : w.folderAt? path = some t) : ∃ t', w'.folderAt? path = some t' ∧ t.Same t' := by
  obtain ⟨names, hnames, hat, hfolder⟩ := folderAt?_eq_some_iff.1 ht
  obtain ⟨t', hat', hsame⟩ := h.root.at? hat
  have hfolder' : t'.isFolder = true := (FileTree.isFolder_eq_of_kind hsame.kind_eq).trans hfolder
  have hnames' : w'.locate? path = some names := (h.locate?_eq path).trans hnames
  exact ⟨t', folderAt?_eq_some_iff.2 ⟨names, hnames', hat', hfolder'⟩, hsame⟩

theorem Relisted.standsFor {list : List String} (h : w.Relisted w')
    (hlist : w.StandsFor path list) : w'.StandsFor path list := by
  refine ⟨fun hnone => hlist.itself ?_, fun t' ht' => ?_⟩
  · cases hfolder : w.folderAt? path with
    | none => rfl
    | some t =>
      obtain ⟨t', ht', -⟩ := h.exists_folderAt? hfolder
      cases hnone.symm.trans ht'
  · obtain ⟨t, ht, hsame⟩ := h.symm.exists_folderAt? ht'
    exact hsame.symm.modulesOf (hlist.modules t ht)

theorem Relisted.unreadable {p : String} (h : w.Relisted w') (hp : w.Unreadable path p) :
    w'.Unreadable path p := by
  obtain ⟨t, steps, ht, hbarred, rfl⟩ := hp
  obtain ⟨t', ht', hsame⟩ := h.exists_folderAt? ht
  exact ⟨t', steps, ht', hsame.meets FileTree.barred_of_kind hbarred, rfl⟩

/-- What one argument is expanded to does not depend on the order of the entries, and nor does it
whether it fails. -/
theorem Relisted.expandInput_eq (h : w.Relisted w') (hw : w.root.WellFormed)
    (hw' : w'.root.WellFormed) (path : String) :
    (expandInput w' path).toOption = (expandInput w path).toOption := by
  cases hexpand : expandInput w path with
  | ok list =>
    obtain ⟨hlist, hfree⟩ := standsFor_of_expandInput hw hexpand
    cases hexpand' : expandInput w' path with
    | ok list' =>
      obtain ⟨hlist', -⟩ := standsFor_of_expandInput hw' hexpand'
      exact congrArg some (hlist'.unique (h.standsFor hlist))
    | error p =>
      exact absurd (h.symm.unreadable (unreadable_of_expandInput hw' hexpand')) (hfree p)
  | error p =>
    have hunreadable := h.unreadable (unreadable_of_expandInput hw hexpand)
    cases hexpand' : expandInput w' path with
    | ok list' => exact absurd hunreadable ((standsFor_of_expandInput hw' hexpand').2 p)
    | error p' => rfl

end

/-! ## 3. All arguments -/

/-- **Arguments are expanded to what they stand for, in any order in which folders are listed.**

Where nothing below the arguments is unreadable, their expansion consists of what each of them
stands for, one behind the other: the argument itself, or the modules below the folder that it leads
to, in the strict order of their paths. Otherwise the expansion fails with the path of a folder that
is unreadable. With the entries in another order it is the same, or fails as well. Where paths lead
to all folders, the modules are exactly the files that are named like modules. A folder that its
path cannot lead to goes by its name. -/
theorem inputs_exact {w : Workspace} (hw : w.root.WellFormed) (paths : List String) :
    (∀ out, expandInputs w paths = .ok out →
      ∃ lists, List.Forall₂ w.StandsFor paths lists ∧ out = lists.flatten) ∧
    (∀ p, expandInputs w paths = .error p → ∃ path ∈ paths, w.Unreadable path p) ∧
    ((∃ out, expandInputs w paths = .ok out) ↔ ∀ path ∈ paths, ∀ p, ¬ w.Unreadable path p) ∧
    (∀ w' : Workspace, w'.root.WellFormed → w.Relisted w' →
      (expandInputs w' paths).toOption = (expandInputs w paths).toOption) ∧
    ∀ path t, FileTree.InReach path t → ∀ steps,
      (FileTree.Meets FileTree.Taken path t steps ↔
        (∃ content, t.at? steps = some (.file content)) ∧
          isModuleName (Path.below path steps) = true) ∧
      (FileTree.Meets FileTree.Barred path t steps ↔ t.at? steps = some .locked) := by
  have hok : ∀ out, expandInputs w paths = .ok out →
      ∃ lists, paths.mapM (expandInput w) = .ok lists ∧ out = lists.flatten := by
    intro out h
    obtain ⟨lists, hlists, h⟩ := exists_of_bind_ok h
    exact ⟨lists, hlists, (Except.ok.inj h).symm⟩
  have herror : ∀ p, expandInputs w paths = .error p → ∃ path ∈ paths, w.Unreadable path p := by
    intro p h
    obtain ⟨front, path, behind, rfl, -, hpath⟩ :=
      mapM_eq_error_iff.1 (bind_pure_eq_error_iff.1 h)
    exact ⟨path, List.mem_append_right _ (List.mem_cons_self ..),
      unreadable_of_expandInput hw hpath⟩
  refine ⟨fun out h => ?_, herror, ⟨?_, fun h => ?_⟩, fun w' hw' h => ?_,
    fun path t h => h.meets_iff⟩
  · obtain ⟨lists, hlists, rfl⟩ := hok out h
    exact ⟨lists, (mapM_eq_ok_iff.1 hlists).imp fun _ _ hlist =>
      (standsFor_of_expandInput hw hlist).1, rfl⟩
  · rintro ⟨out, h⟩ path hpath
    obtain ⟨lists, hlists, rfl⟩ := hok out h
    obtain ⟨list, -, hlist⟩ := exists_mem_of_forall₂ (mapM_eq_ok_iff.1 hlists) path hpath
    exact (standsFor_of_expandInput hw hlist).2
  · cases hexpand : expandInputs w paths with
    | ok out => exact ⟨out, rfl⟩
    | error p =>
      obtain ⟨path, hpath, hp⟩ := herror p hexpand
      exact absurd hp (h path hpath p)
  · have hsame := toOption_mapM_congr fun path (_ : path ∈ paths) => h.expandInput_eq hw hw' path
    rw [expandInputs, expandInputs, toOption_bind, toOption_bind, hsame]

/-- Some entries: a text, a folder that is named like a module, and two modules. -/
def depotEntries : List (String × FileTree) :=
  [("notes.txt", .file ⟨#[]⟩), ("x.dll", .folder [("c.exe", .file ⟨#[]⟩)]), ("b.dll", .file ⟨#[]⟩),
    ("a.exe", .file ⟨#[]⟩)]

/-- Files with these entries at the root. -/
def depot (entries : List (String × FileTree)) : Workspace :=
  ⟨.folder entries, []⟩

theorem wellFormed_depot : (depot depotEntries).root.WellFormed ∧
    (depot depotEntries.reverse).root.WellFormed := by
  have hnames : Path.IsName "notes.txt" ∧ Path.IsName "x.dll" ∧ Path.IsName "c.exe" ∧
      Path.IsName "b.dll" ∧ Path.IsName "a.exe" := by
    refine ⟨⟨?_, ?_, ?_⟩, ⟨?_, ?_, ?_⟩, ⟨?_, ?_, ?_⟩, ⟨?_, ?_, ?_⟩, ⟨?_, ?_, ?_⟩⟩ <;> decide +kernel
  obtain ⟨hnotes, hx, hc, hb, ha⟩ := hnames
  have hfolder : (FileTree.folder [("c.exe", .file ⟨#[]⟩)]).WellFormed :=
    ⟨by decide, hc, trivial, trivial⟩
  exact ⟨⟨by decide, hnotes, trivial, hx, hfolder, hb, trivial, ha, trivial, trivial⟩,
    ⟨by decide, ha, trivial, hb, trivial, hx, hfolder, hnotes, trivial, trivial⟩⟩

/-- In the order of their names the entries are found in the order of their paths. -/
theorem expandInputs_depot : expandInputs (depot depotEntries.reverse) ["other", "."]
    = .ok ["other", "./a.exe", "./b.dll", "./x.dll/c.exe"] := by
  have hfound : (depot depotEntries.reverse).root.modulesAt "." [] = .ok [⟨["a.exe"], "./a.exe"⟩,
      ⟨["b.dll"], "./b.dll"⟩, ⟨["x.dll", "c.exe"], "./x.dll/c.exe"⟩] := by
    decide +kernel
  have hbelow : (depot depotEntries.reverse).root.modulesBelow "."
      = .ok ["./a.exe", "./b.dll", "./x.dll/c.exe"] := by
    rw [FileTree.modulesBelow, hfound, bind_ok, List.mergeSort_of_pairwise (by decide +kernel)]
    rfl
  have hroot : (depot depotEntries.reverse).locate? "." = some [] := by decide +kernel
  have hother : (depot depotEntries.reverse).locate? "other" = some ["other"] := by decide +kernel
  have hfirst : expandInput (depot depotEntries.reverse) "other" = .ok ["other"] := by
    rw [expandInput, find?_eq, hother]
    rfl
  have hsecond : expandInput (depot depotEntries.reverse) "."
      = .ok ["./a.exe", "./b.dll", "./x.dll/c.exe"] := by
    rw [expandInput, find?_eq, hroot]
    exact hbelow
  rw [expandInputs, mapM_cons_ok _ _ hfirst (mapM_cons_ok _ [] hsecond rfl)]
  rfl

/-- With the entries in another order the modules are found in the same one. -/
theorem inputs_exact_depot : (depot depotEntries.reverse).root.WellFormed ∧
    (depot depotEntries).root.WellFormed ∧
    (depot depotEntries.reverse).Relisted (depot depotEntries) ∧
    (expandInputs (depot depotEntries) ["other", "."]).toOption
      = some ["other", "./a.exe", "./b.dll", "./x.dll/c.exe"] := by
  obtain ⟨hwf, hwf'⟩ := wellFormed_depot
  have hrelisted : (depot depotEntries.reverse).Relisted (depot depotEntries) :=
    ⟨FileTree.same_of_perm (List.reverse_perm _) (by decide), rfl⟩
  obtain ⟨-, -, -, hsame, -⟩ := inputs_exact hwf' ["other", "."]
  refine ⟨hwf', hwf, hrelisted, ?_⟩
  rw [hsame _ hwf hrelisted, expandInputs_depot]
  rfl

/-! ## 4. Paths that are too long -/

/-- A path to the folder `d` on which so many steps lead nowhere. -/
def detour : Nat → String
  | 0 => "d"
  | n + 1 => "./" ++ detour n

theorem utf8ByteSize_detour (n : Nat) : (detour n).utf8ByteSize = 2 * n + 1 := by
  induction n with
  | zero => rfl
  | succ n ih =>
    have hstep : "./".utf8ByteSize = 2 := rfl
    rw [detour, String.utf8ByteSize_append, ih, hstep]
    omega

theorem toList_detour (n : Nat) :
    (detour (n + 1)).toList = '.' :: '/' :: (detour n).toList := by
  rw [detour, String.toList_append]
  rfl

theorem splitOn_detour (n : Nat) :
    Path.splitOn '/' (detour n).toList = List.replicate n ['.'] ++ [['d']] := by
  induction n with
  | zero => decide +kernel
  | succ n ih =>
    have hfront : Path.splitOn '/' (['.'] ++ '/' :: (detour n).toList)
        = [['.']] ++ Path.splitOn '/' (detour n).toList :=
      Path.splitOn_append_cons ['.'] (detour n).toList
    rw [toList_detour, List.replicate_succ, List.cons_append, ← ih]
    exact hfront

theorem parts_detour (n : Nat) : Path.parts (detour n) = ["d"] := by
  have hdot : Path.isStep ['.'] = false := rfl
  rw [Path.parts, splitOn_detour, List.filter_append, List.filter_replicate, hdot]
  rfl

theorem mem_toList_detour {n : Nat} {c : Char} (h : c ∈ (detour n).toList) :
    c = '.' ∨ c = '/' ∨ c = 'd' := by
  induction n with
  | zero => exact .inr (.inr (List.mem_singleton.1 h))
  | succ n ih =>
    rw [toList_detour] at h
    rcases List.mem_cons.1 h with rfl | h
    · exact .inl rfl
    rcases List.mem_cons.1 h with rfl | h
    · exact .inr (.inl rfl)
    · exact ih h

theorem getLast?_detour (n : Nat) : (detour n).toList.getLast? = some 'd' := by
  induction n with
  | zero => decide +kernel
  | succ n ih => rw [toList_detour, List.getLast?_cons, List.getLast?_cons, ih]; rfl

/-- The path leads to the folder as long as it is not too long. -/
theorem isUsable_detour {n : Nat} (h : 2 * n + 1 ≤ Path.longest) :
    Path.isUsable (detour n) = true := by
  have hsize := utf8ByteSize_detour n
  have hne : detour n ≠ "" := by
    intro hempty
    rw [hempty] at hsize
    cases hsize
  have hzero : (detour n).toList.contains '\x00' = false := by
    refine Bool.eq_false_iff.2 fun hmem => ?_
    rcases mem_toList_detour (List.contains_iff_mem.1 hmem) with h | h | h <;> cases h
  have hparts : (Path.splitOn '/' (detour n).toList).all
      (fun part => (String.ofList part).utf8ByteSize ≤ Path.longestPart) = true := by
    rw [splitOn_detour, List.all_append, List.all_replicate]
    split <;> decide +kernel
  rw [Path.isUsable, hsize, hzero, hparts, decide_eq_true h, bne_iff_ne.2 hne]
  rfl

theorem join_detour (n : Nat) (name : String) :
    Path.join (detour n) name = detour n ++ "/" ++ name := by
  rw [Path.join, getLast?_detour]
  rfl

/-- What is below it has a path that leads nowhere, if that is too long. -/
theorem isUsable_join_detour {n : Nat} {name : String}
    (h : Path.longest < 2 * n + 2 + name.utf8ByteSize) :
    Path.isUsable (Path.join (detour n) name) = false := by
  have hsize : (Path.join (detour n) name).utf8ByteSize = 2 * n + 2 + name.utf8ByteSize := by
    rw [join_detour, String.utf8ByteSize_append, String.utf8ByteSize_append, utf8ByteSize_detour]
    rfl
  rw [Path.isUsable, hsize, decide_eq_false (Nat.not_le.2 h), Bool.and_false, Bool.false_and,
    Bool.false_and]

/-- A folder with two folders in it: an empty one that is named like a module, and one with a module
in it. -/
def plugins : FileTree :=
  .folder [("x.dll", .folder []), ("plugins", .folder [("a.dll", .file ⟨#[]⟩)])]

/-- The files of a run that starts beside this folder. -/
def pluginFiles : Workspace :=
  ⟨.folder [("d", plugins)], []⟩

/-- Whether an entry is named like a module does not depend on the folder. -/
theorem isModuleName_join (folder : String) {name : String} (h : Path.IsName name) :
    isModuleName (Path.join folder name) = isModuleName name := by
  have hfile : Path.fileName? (Path.join folder name) = Path.fileName? name := by
    rw [Path.fileName?, Path.fileName?, Path.parts_join folder h, Path.parts_of_isName h,
      List.getLast?_concat]
    rfl
  rw [isModuleName, isModuleName, Path.extension?, Path.extension?, hfile]

/-- What is found below this folder on a path that leads to it, but to no folder in it. -/
theorem modulesBelow_plugins {n : Nat} (hreach : 2 * n + 1 ≤ Path.longest)
    (hlong : Path.longest < 2 * n + 7) :
    plugins.modulesBelow (detour n) = .ok [Path.join (detour n) "x.dll"] := by
  have hx : Path.IsName "x.dll" := ⟨by decide +kernel, by decide +kernel, by decide⟩
  have hplugins : Path.IsName "plugins" := ⟨by decide +kernel, by decide +kernel, by decide⟩
  have hfound : plugins.modulesAt (detour n) []
      = .ok [⟨["x.dll"], Path.join (detour n) "x.dll"⟩] := by
    have hnamed : isModuleName (Path.join (detour n) "x.dll") = true := by
      rw [isModuleName_join _ hx]
      decide +kernel
    have hunnamed : isModuleName (Path.join (detour n) "plugins") = false := by
      rw [isModuleName_join _ hplugins]
      decide +kernel
    have hfirst : Path.isUsable (Path.join (detour n) "x.dll") = false :=
      isUsable_join_detour hlong
    have hsecond : Path.isUsable (Path.join (detour n) "plugins") = false :=
      isUsable_join_detour (Nat.lt_of_lt_of_le hlong (Nat.le_add_right (2 * n + 7) 2))
    simp only [plugins, FileTree.modulesAt, modulesIn, isUsable_detour hreach, hfirst, hsecond,
      moduleNamed, hnamed, hunnamed]
    rfl
  rw [FileTree.modulesBelow, hfound, bind_ok, List.mergeSort_singleton]
  rfl

/-- **A folder that is taken for a module, and one that is passed over.** The path leads to the
folder, but with one name more it is too long: the folder `x.dll` is named, and the module in the
other folder is not. -/
theorem long_folder_named :
    pluginFiles.root.at? ["d", "x.dll"] = some (.folder []) ∧
    pluginFiles.root.at? ["d", "plugins", "a.dll"] = some (.file ⟨#[]⟩) ∧
    expandInputs pluginFiles [detour 2045] = .ok [detour 2045 ++ "/x.dll"] := by
  have hreach : 2 * 2045 + 1 ≤ Path.longest := by decide
  have hlocate : pluginFiles.locate? (detour 2045) = some ["d"] := by
    have hstart : pluginFiles.folder.reverse = [] := rfl
    rw [locate?, if_pos (isUsable_detour hreach), parts_detour, hstart, ite_self]
    rfl
  have hexpand : expandInput pluginFiles (detour 2045) = .ok [detour 2045 ++ "/x.dll"] := by
    rw [expandInput, find?_eq, hlocate]
    have hbelow := modulesBelow_plugins hreach (by decide)
    rw [join_detour, String.append_assoc] at hbelow
    exact hbelow
  refine ⟨rfl, rfl, ?_⟩
  rw [expandInputs, mapM_cons_ok _ [] hexpand rfl]
  rfl

end Workspace

end InteropTables
