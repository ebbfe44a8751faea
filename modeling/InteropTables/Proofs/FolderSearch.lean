import InteropTables.CommandLine.Inputs
import InteropTables.Proofs.Files
import InteropTables.Proofs.Paths

/-!
# Searching folders for modules

A search below a folder meets the entries in the order in which the file system lists them. What it
finds is put in the order of the paths, so that order does not show. A folder is searched if its
path can lead to it; a path that is too long leads nowhere, and then the folder goes by its name.

* `WellFormed`, `Same`: trees as file systems hold them, and trees that differ only in the order in
  which entries are listed (`same_of_perm`);
* `Meets`, `Taken`, `Barred`: the entries that a search comes to, those that it takes for modules,
  and those that it fails at;
* `finds_modulesAt`: **one search finds what it takes, each once, or fails**;
* `ModulesOf`, `modulesOf_of_modulesBelow`: **the modules below a folder, in the strict order of
  their paths**; `ModulesOf.unique`: there is one list of them;
* `Same.modulesOf`: **the order of the entries does not matter**;
* `InReach.meets_iff`: where paths lead to all folders, exactly the files are taken.
-/

namespace InteropTables

namespace FileTree

/-! ## 1. Trees -/

mutual

/-- The entries of every folder have names that entries can have, each its own. -/
def WellFormed : FileTree → Prop
  | file _ => True
  | folder entries => (entries.map (·.1)).Nodup ∧ WellFormedEntries entries
  | locked => True

/-- Each entry has a name that entries can have, and is well-formed. -/
def WellFormedEntries : List (String × FileTree) → Prop
  | [] => True
  | (name, t) :: rest => Path.IsName name ∧ t.WellFormed ∧ WellFormedEntries rest

end

/-- What an entry is, a folder without its entries. -/
inductive Kind where
  | file (content : ByteArray)
  | folder
  | locked

/-- The kind of an entry. -/
def kind : FileTree → Kind
  | file content => .file content
  | folder _ => .folder
  | locked => .locked

/-- The same entries under the same names, whatever order they are listed in. -/
def Same (t t' : FileTree) : Prop :=
  ∀ names, (t.at? names).map kind = (t'.at? names).map kind

theorem at?_append (t : FileTree) (names more : List String) :
    t.at? (names ++ more) = (t.at? names).bind fun inner => inner.at? more := by
  induction names generalizing t with
  | nil => cases t <;> rfl
  | cons name names ih =>
    cases t with
    | folder entries =>
      show ((entries.lookup name).bind fun t => t.at? (names ++ more))
        = ((entries.lookup name).bind fun t => t.at? names).bind fun inner => inner.at? more
      cases entries.lookup name with
      | none => rfl
      | some inner => exact ih inner
    | _ => rfl

theorem at?_nil (t : FileTree) : t.at? [] = some t := by
  cases t <;> rfl

theorem wellFormed_of_lookup {entries : List (String × FileTree)} {name : String} {t : FileTree}
    (h : WellFormedEntries entries) (hname : entries.lookup name = some t) :
    Path.IsName name ∧ t.WellFormed := by
  induction entries with
  | nil => cases hname
  | cons e rest ih =>
    obtain ⟨other, inner⟩ := e
    obtain ⟨hother, hinner, hrest⟩ := h
    rw [List.lookup_cons] at hname
    split at hname
    · rename_i heq
      obtain rfl := Option.some.inj hname
      exact ⟨eq_of_beq heq ▸ hother, hinner⟩
    · exact ih hrest hname

/-- What is in a well-formed tree is well-formed, and entries can have the names that lead there. -/
theorem wellFormed_of_at? {t inner : FileTree} {names : List String} (h : t.WellFormed)
    (hat : t.at? names = some inner) : (∀ name ∈ names, Path.IsName name) ∧ inner.WellFormed := by
  induction names generalizing t with
  | nil =>
    rw [at?_nil] at hat
    exact ⟨List.forall_mem_nil _, Option.some.inj hat ▸ h⟩
  | cons name names ih =>
    cases t with
    | folder entries =>
      obtain ⟨t', hname, hat⟩ := Option.bind_eq_some_iff.1 hat
      obtain ⟨hgood, hwf⟩ := wellFormed_of_lookup h.2 hname
      obtain ⟨hnames, hinner⟩ := ih hwf hat
      exact ⟨List.forall_mem_cons.2 ⟨hgood, hnames⟩, hinner⟩
    | _ => cases hat

/-- Where names are not repeated, a name leads to what stands beside it. -/
theorem lookup_eq_some_iff {entries : List (String × FileTree)} (h : (entries.map (·.1)).Nodup)
    {name : String} {t : FileTree} : entries.lookup name = some t ↔ (name, t) ∈ entries := by
  induction entries with
  | nil => exact iff_of_false nofun List.not_mem_nil
  | cons e rest ih =>
    obtain ⟨other, inner⟩ := e
    obtain ⟨hother, hrest⟩ := List.nodup_cons.1 h
    rw [List.lookup_cons, List.mem_cons]
    by_cases hname : name = other
    · subst hname
      rw [beq_self_eq_true]
      refine ⟨fun hsome => .inl (by rw [Option.some.inj hsome]), fun hmem => ?_⟩
      rcases hmem with hmem | hmem
      · rw [(Prod.mk.inj hmem).2]
      · exact absurd (List.mem_map_of_mem hmem) hother
    · rw [beq_false_of_ne hname]
      refine (ih hrest).trans ⟨.inr, fun hmem => hmem.resolve_left fun heq => ?_⟩
      exact hname (Prod.mk.inj heq).1

/-! ## 2. What a search meets -/

/-- Each folder on the way along some steps below a path has a path that can lead to it. -/
def Reached : (path : String) → (steps : List String) → Prop
  | _, [] => True
  | path, name :: steps => Path.isUsable path = true ∧ Reached (Path.join path name) steps

/-- A search that starts at an entry with a given path comes to an entry at some steps, and of this
entry and its path something holds. -/
def Meets (P : FileTree → String → Prop) (path : String) (t : FileTree) (steps : List String) :
    Prop :=
  Reached path steps ∧ ∃ entry, t.at? steps = some entry ∧ P entry (Path.below path steps)

/-- An entry that a search takes for a module: it is named like one, and it is no folder, or its
path cannot lead to it. -/
structure Taken (entry : FileTree) (path : String) : Prop where
  leaf : entry.isFolder = true → Path.isUsable path = false
  named : isModuleName path = true

/-- An entry that a search fails at: a folder that its path leads to and that cannot be listed. -/
structure Barred (entry : FileTree) (path : String) : Prop where
  locked : entry = .locked
  usable : Path.isUsable path = true

/-- A search of the entries of a folder comes to an entry at some steps. -/
def MeetsBelow (P : FileTree → String → Prop) (path : String) (entries : List (String × FileTree))
    (steps : List String) : Prop :=
  ∃ name t rest, steps = name :: rest ∧ (name, t) ∈ entries ∧ Meets P (Path.join path name) t rest

section Meets

variable {P : FileTree → String → Prop} {path : String} {steps : List String}
  {entries : List (String × FileTree)}

/-- Where a search does not go on, it comes to nothing but the entry where it starts. -/
theorem meets_iff_of_leaf {t : FileTree}
    (h : Path.isUsable path = true → ∀ name rest, t.at? (name :: rest) = none) :
    Meets P path t steps ↔ steps = [] ∧ P t path := by
  constructor
  · rintro ⟨hreached, entry, hat, hentry⟩
    cases steps with
    | nil =>
      rw [at?_nil] at hat
      exact ⟨rfl, Option.some.inj hat ▸ hentry⟩
    | cons name rest =>
      rw [h hreached.1] at hat
      cases hat
  · rintro ⟨rfl, ht⟩
    exact ⟨trivial, t, at?_nil t, ht⟩

/-- In a folder it comes to the folder itself and to what it comes to below the entries. -/
theorem meets_folder_iff (hnames : (entries.map (·.1)).Nodup)
    (husable : Path.isUsable path = true) : Meets P path (folder entries) steps ↔
      (steps = [] ∧ P (folder entries) path) ∨ MeetsBelow P path entries steps := by
  constructor
  · rintro ⟨hreached, entry, hat, hentry⟩
    cases steps with
    | nil => exact .inl ⟨rfl, Option.some.inj hat ▸ hentry⟩
    | cons name rest =>
      obtain ⟨t, hname, hat⟩ := Option.bind_eq_some_iff.1 hat
      exact .inr ⟨name, t, rest, rfl, (lookup_eq_some_iff hnames).1 hname, hreached.2, entry, hat,
        hentry⟩
  · rintro (⟨rfl, hfolder⟩ | ⟨name, t, rest, rfl, hmem, hreached, entry, hat, hentry⟩)
    · exact ⟨trivial, _, rfl, hfolder⟩
    · exact ⟨⟨husable, hreached⟩, entry,
        Option.bind_eq_some_iff.2 ⟨t, (lookup_eq_some_iff hnames).2 hmem, hat⟩, hentry⟩

theorem meetsBelow_nil : ¬ MeetsBelow P path [] steps := by
  rintro ⟨name, t, rest, -, hmem, -⟩
  exact absurd hmem List.not_mem_nil

theorem meetsBelow_cons_iff {name : String} {t : FileTree} :
    MeetsBelow P path ((name, t) :: entries) steps ↔
      (∃ rest, steps = name :: rest ∧ Meets P (Path.join path name) t rest) ∨
      MeetsBelow P path entries steps := by
  constructor
  · rintro ⟨other, t', rest, rfl, hmem, hmeets⟩
    rcases List.mem_cons.1 hmem with heq | hmem
    · obtain ⟨rfl, rfl⟩ := Prod.mk.inj heq
      exact .inl ⟨rest, rfl, hmeets⟩
    · exact .inr ⟨other, t', rest, rfl, hmem, hmeets⟩
  · rintro (⟨rest, rfl, hmeets⟩ | ⟨other, t', rest, rfl, hmem, hmeets⟩)
    · exact ⟨name, t, rest, rfl, List.mem_cons_self .., hmeets⟩
    · exact ⟨other, t', rest, rfl, List.mem_cons_of_mem _ hmem, hmeets⟩

/-- Steps below the entries start with the name of one of them. -/
theorem head_of_meetsBelow {name : String} {rest : List String}
    (h : MeetsBelow P path entries (name :: rest)) : name ∈ entries.map (·.1) := by
  obtain ⟨other, t, rest', hsteps, hmem, -⟩ := h
  obtain ⟨rfl, -⟩ := List.cons.inj hsteps
  exact List.mem_map_of_mem hmem

end Meets

/-! ## 3. Searches -/

/-- The outcome of a search from a path to which the names in `above` lead: each entry that is taken
for a module once, by its steps and its path; or the path of an entry that the search fails at. -/
def Finds (path : String) (above : List String) (taken barred : List String → Prop) :
    Except String (List Found) → Prop
  | .ok found => (∀ f, f ∈ found ↔
        ∃ steps, taken steps ∧ f = ⟨above.reverse ++ steps, Path.below path steps⟩) ∧
      (found.map (·.steps)).Nodup ∧ ∀ steps, ¬ barred steps
  | .error p => ∃ steps, barred steps ∧ p = Path.below path steps

section Finds

variable {path : String} {above : List String} {taken taken' barred barred' : List String → Prop}

theorem Finds.congr {outcome : Except String (List Found)}
    (h : Finds path above taken barred outcome) (htaken : ∀ steps, taken' steps ↔ taken steps)
    (hbarred : ∀ steps, barred' steps ↔ barred steps) :
    Finds path above taken' barred' outcome := by
  rwa [show taken' = taken from funext fun steps => propext (htaken steps),
    show barred' = barred from funext fun steps => propext (hbarred steps)]

/-- An entry that goes by its name. -/
theorem finds_moduleNamed (hbarred : ∀ steps, ¬ barred steps) :
    Finds path above (fun steps => steps = [] ∧ isModuleName path = true) barred
      (.ok (moduleNamed path above)) := by
  refine ⟨fun f => ?_, ?_, hbarred⟩
  · rw [moduleNamed]
    split
    · rename_i hname
      rw [List.mem_singleton]
      constructor
      · rintro rfl
        exact ⟨[], ⟨rfl, hname⟩, by rw [List.append_nil]; rfl⟩
      · rintro ⟨steps, ⟨rfl, -⟩, rfl⟩
        rw [List.append_nil]
        rfl
    · rename_i hname
      refine iff_of_false List.not_mem_nil ?_
      rintro ⟨steps, ⟨-, hmodule⟩, -⟩
      exact hname hmodule
  · rw [moduleNamed]
    split
    · exact List.nodup_singleton _
    · exact List.nodup_nil

/-- What is found below an entry, and below the entries behind it. -/
theorem finds_append {name : String} {t : FileTree} {rest : List (String × FileTree)}
    {here others : Except String (List Found)} (hname : name ∉ rest.map (·.1))
    (hhere : Finds (Path.join path name) (name :: above) (Meets Taken (Path.join path name) t)
      (Meets Barred (Path.join path name) t) here)
    (hothers : Finds path above (MeetsBelow Taken path rest) (MeetsBelow Barred path rest) others) :
    Finds path above (MeetsBelow Taken path ((name, t) :: rest))
      (MeetsBelow Barred path ((name, t) :: rest)) (do return (← here) ++ (← others)) := by
  cases here with
  | error p =>
    obtain ⟨steps, hbarred, rfl⟩ := hhere
    exact ⟨name :: steps, meetsBelow_cons_iff.2 (.inl ⟨steps, rfl, hbarred⟩), rfl⟩
  | ok found =>
    obtain ⟨hfound, hdistinct, hfree⟩ := hhere
    cases others with
    | error p =>
      obtain ⟨steps, hbarred, rfl⟩ := hothers
      exact ⟨steps, meetsBelow_cons_iff.2 (.inr hbarred), rfl⟩
    | ok more =>
      obtain ⟨hmore, hdistinct', hfree'⟩ := hothers
      have hsteps : ∀ rest, (name :: above).reverse ++ rest = above.reverse ++ name :: rest := by
        intro rest
        rw [List.reverse_cons, List.append_assoc]
        rfl
      refine ⟨fun f => ?_, ?_, fun steps hbarred => ?_⟩
      · rw [List.mem_append, hfound, hmore]
        constructor
        · rintro (⟨steps, htaken, rfl⟩ | ⟨steps, htaken, rfl⟩)
          · exact ⟨name :: steps, meetsBelow_cons_iff.2 (.inl ⟨steps, rfl, htaken⟩),
              by rw [hsteps]; rfl⟩
          · exact ⟨steps, meetsBelow_cons_iff.2 (.inr htaken), rfl⟩
        · rintro ⟨steps, htaken, rfl⟩
          rcases meetsBelow_cons_iff.1 htaken with ⟨steps, rfl, hthere⟩ | hthere
          · exact .inl ⟨steps, hthere, by rw [hsteps]; rfl⟩
          · exact .inr ⟨steps, hthere, rfl⟩
      · -- the steps of both parts differ in the name that they start with
        rw [List.map_append, List.nodup_append]
        refine ⟨hdistinct, hdistinct', fun a ha b hb => ?_⟩
        obtain ⟨f, hf, rfl⟩ := List.mem_map.1 ha
        obtain ⟨g, hg, rfl⟩ := List.mem_map.1 hb
        obtain ⟨steps, -, rfl⟩ := (hfound f).1 hf
        obtain ⟨steps', htaken, rfl⟩ := (hmore g).1 hg
        rw [hsteps]
        intro heq
        have hsame := List.append_cancel_left heq
        exact hname (head_of_meetsBelow (hsame ▸ htaken))
      · rcases meetsBelow_cons_iff.1 hbarred with ⟨steps, rfl, hthere⟩ | hthere
        · exact hfree steps hthere
        · exact hfree' steps hthere

/-- What does not go on goes by its name. -/
theorem finds_leaf {t : FileTree}
    (hleaf : Path.isUsable path = true → ∀ name rest, t.at? (name :: rest) = none)
    (htaken : t.isFolder = true → Path.isUsable path = false) (hbarred : ¬ Barred t path) :
    Finds path above (Meets Taken path t) (Meets Barred path t) (.ok (moduleNamed path above)) := by
  refine (finds_moduleNamed fun steps h => hbarred ((meets_iff_of_leaf hleaf).1 h).2).congr
    (fun steps => (meets_iff_of_leaf hleaf).trans (and_congr_right fun _ => ?_)) fun _ => Iff.rfl
  exact ⟨Taken.named, Taken.mk htaken⟩

end Finds

mutual

/-- **A search finds the entries that are taken for modules, each once, or it fails at a folder that
cannot be listed.** The recursion is that of the search. -/
theorem finds_modulesAt : ∀ (t : FileTree) (path : String) (above : List String), t.WellFormed →
    Finds path above (Meets Taken path t) (Meets Barred path t) (t.modulesAt path above)
  | .file content, path, above, _ => by
    rw [modulesAt]
    exact finds_leaf (fun _ _ _ => rfl) nofun fun h => nomatch h.locked
  | .locked, path, above, _ => by
    rw [modulesAt]
    split
    · rename_i husable
      exact ⟨[], (meets_iff_of_leaf fun _ _ _ => rfl).2 ⟨rfl, rfl, husable⟩, rfl⟩
    · rename_i husable
      exact finds_leaf (fun _ _ _ => rfl) (fun _ => Bool.eq_false_iff.2 husable)
        fun h => husable h.usable
  | .folder entries, path, above, h => by
    rw [modulesAt]
    split
    · rename_i husable
      refine (finds_modulesIn entries path above h.1 h.2).congr (fun steps => ?_) fun steps => ?_
      · refine (meets_folder_iff h.1 husable).trans (or_iff_right ?_)
        rintro ⟨-, htaken⟩
        exact Bool.false_ne_true ((htaken.leaf rfl).symm.trans husable)
      · refine (meets_folder_iff h.1 husable).trans (or_iff_right ?_)
        rintro ⟨-, hbarred⟩
        exact nomatch hbarred.locked
    · rename_i husable
      exact finds_leaf (fun h => absurd h husable) (fun _ => Bool.eq_false_iff.2 husable)
        fun h => nomatch h.locked

theorem finds_modulesIn : ∀ (entries : List (String × FileTree)) (path : String)
    (above : List String), (entries.map (·.1)).Nodup → WellFormedEntries entries →
    Finds path above (MeetsBelow Taken path entries) (MeetsBelow Barred path entries)
      (modulesIn path above entries)
  | [], path, above, _, _ => by
    rw [modulesIn]
    refine ⟨fun f => iff_of_false List.not_mem_nil ?_, List.nodup_nil, fun _ => meetsBelow_nil⟩
    rintro ⟨steps, htaken, -⟩
    exact meetsBelow_nil htaken
  | (name, t) :: rest, path, above, hnames, h => by
    obtain ⟨hname, hrest⟩ := List.nodup_cons.1 hnames
    rw [modulesIn]
    exact finds_append hname (finds_modulesAt t _ _ h.2.1)
      (finds_modulesIn rest path above hrest h.2.2)

end

variable {t t' : FileTree} {path : String} {steps : List String}

/-- The steps to what a search meets in a well-formed tree can lead there. -/
theorem isName_of_meets {P : FileTree → String → Prop} (h : t.WellFormed)
    (hmeets : Meets P path t steps) : ∀ name ∈ steps, Path.IsName name := by
  obtain ⟨-, entry, hat, -⟩ := hmeets
  exact (wellFormed_of_at? h hat).1

/-- The modules below a folder: those that the search takes, in the strict order of their paths. -/
structure ModulesOf (t : FileTree) (path : String) (list : List String) : Prop where
  ordered : list.Pairwise Path.Before
  exact : ∀ p, p ∈ list ↔ ∃ steps, Meets Taken path t steps ∧ p = Path.below path steps

/-- **The modules below a folder are exactly those that the search takes, in the order of their
paths.** -/
theorem modulesOf_of_modulesBelow {list : List String} (hwf : t.WellFormed)
    (h : t.modulesBelow path = .ok list) :
    t.ModulesOf path list ∧ ∀ steps, ¬ Meets Barred path t steps := by
  have hfinds := finds_modulesAt t path [] hwf
  cases hfound : t.modulesAt path [] with
  | error p =>
    rw [modulesBelow, hfound] at h
    cases h
  | ok found =>
    rw [hfound] at hfinds
    rw [modulesBelow, hfound] at h
    obtain ⟨hexact, hdistinct, hfree⟩ := hfinds
    obtain rfl := Except.ok.inj h
    have hperm := List.mergeSort_perm found fun a b => (compare a.steps b.steps).isLE
    have hmem : ∀ f, f ∈ found.mergeSort (fun a b => (compare a.steps b.steps).isLE) ↔
        ∃ steps, Meets Taken path t steps ∧ f = ⟨steps, Path.below path steps⟩ :=
      fun f => hperm.mem_iff.trans (hexact f)
    refine ⟨⟨?_, fun p => ?_⟩, hfree⟩
    · have hordered := pairwise_mergeSort (compareOn Found.steps) found
      have hsteps : (found.mergeSort fun a b => (compare a.steps b.steps).isLE).Pairwise
          fun a b => a.steps ≠ b.steps :=
        List.pairwise_map.1 ((hperm.map Found.steps).nodup_iff.2 hdistinct)
      refine List.pairwise_map.2 ((hordered.and hsteps).imp_of_mem ?_)
      rintro f g hf hg ⟨hle, hne⟩
      obtain ⟨steps, htaken, rfl⟩ := (hmem f).1 hf
      obtain ⟨steps', htaken', rfl⟩ := (hmem g).1 hg
      rw [Path.before_below_iff (isName_of_meets hwf htaken) (isName_of_meets hwf htaken')]
      refine Std.OrientedCmp.lt_of_not_isLE fun hge => hne ?_
      exact Std.LawfulEqCmp.eq_of_compare (Std.OrientedCmp.isLE_antisymm hle hge)
    · rw [List.mem_map]
      constructor
      · rintro ⟨f, hf, rfl⟩
        obtain ⟨steps, htaken, rfl⟩ := (hmem f).1 hf
        exact ⟨steps, htaken, rfl⟩
      · rintro ⟨steps, htaken, rfl⟩
        exact ⟨_, (hmem _).2 ⟨steps, htaken, rfl⟩, rfl⟩

theorem barred_of_modulesBelow {p : String} (hwf : t.WellFormed)
    (h : t.modulesBelow path = .error p) :
    ∃ steps, Meets Barred path t steps ∧ p = Path.below path steps := by
  have hfinds := finds_modulesAt t path [] hwf
  cases hfound : t.modulesAt path [] with
  | error p' =>
    rw [hfound] at hfinds
    rw [modulesBelow, hfound] at h
    obtain rfl := Except.error.inj h
    exact hfinds
  | ok found =>
    rw [modulesBelow, hfound] at h
    cases h

/-- A list is told by the modules in it. -/
theorem ModulesOf.unique {list list' : List String} (h : t.ModulesOf path list)
    (h' : t.ModulesOf path list') : list = list' :=
  Path.eq_of_before h.ordered h'.ordered fun p => (h.exact p).trans (h'.exact p).symm

/-! ## 4. Other orders of the entries -/

theorem Same.kind_eq (h : t.Same t') : t.kind = t'.kind := by
  have hroot := h []
  rw [at?_nil, at?_nil] at hroot
  exact Option.some.inj hroot

/-- What stands in one tree stands in the other, too, its entries in another order. -/
theorem Same.at? (h : t.Same t') {names : List String} {inner : FileTree}
    (hat : t.at? names = some inner) :
    ∃ inner', t'.at? names = some inner' ∧ inner.Same inner' := by
  have hkind := h names
  rw [hat, Option.map_some, eq_comm] at hkind
  obtain ⟨inner', hat', -⟩ := Option.map_eq_some_iff.1 hkind
  refine ⟨inner', hat', fun more => ?_⟩
  have hmore := h (names ++ more)
  rwa [at?_append, at?_append, hat, hat'] at hmore

theorem Same.symm (h : t.Same t') : t'.Same t :=
  fun names => (h names).symm

theorem isFolder_eq_of_kind (h : t.kind = t'.kind) : t'.isFolder = t.isFolder := by
  cases t <;> cases t' <;> first | rfl | cases h

theorem Same.entryAt_folder (h : t.Same t') {names : List String}
    (hfolder : t.entryAt names = some .folder) : t'.entryAt names = some .folder := by
  rw [← any_isFolder_at?, Option.any_eq_true] at hfolder ⊢
  obtain ⟨inner, hat, hinner⟩ := hfolder
  obtain ⟨inner', hat', hsame⟩ := h.at? hat
  exact ⟨inner', hat', (isFolder_eq_of_kind hsame.kind_eq).trans hinner⟩

theorem taken_of_kind {p : String} (h : t.kind = t'.kind) (htaken : Taken t p) : Taken t' p :=
  ⟨isFolder_eq_of_kind h ▸ htaken.leaf, htaken.named⟩

theorem barred_of_kind {p : String} (h : t.kind = t'.kind) (hbarred : Barred t p) :
    Barred t' p := by
  obtain ⟨rfl, husable⟩ := hbarred
  cases t' <;> first | exact ⟨rfl, husable⟩ | cases h

/-- What a search meets does not depend on the order of the entries. -/
theorem Same.meets {P : FileTree → String → Prop} (h : t.Same t')
    (hP : ∀ {entry entry' p}, kind entry = kind entry' → P entry p → P entry' p)
    (hmeets : Meets P path t steps) : Meets P path t' steps := by
  obtain ⟨hreached, entry, hat, hentry⟩ := hmeets
  obtain ⟨entry', hat', hsame⟩ := h.at? hat
  exact ⟨hreached, entry', hat', hP hsame.kind_eq hentry⟩

theorem Same.modulesOf {list : List String} (h : t.Same t') (hlist : t.ModulesOf path list) :
    t'.ModulesOf path list := by
  refine ⟨hlist.ordered, fun p => (hlist.exact p).trans ?_⟩
  refine exists_congr fun steps => and_congr_left' ?_
  exact ⟨h.meets taken_of_kind, h.symm.meets taken_of_kind⟩

/-- A folder whose entries are listed in another order. -/
theorem same_of_perm {entries entries' : List (String × FileTree)} (h : entries.Perm entries')
    (hnames : (entries.map (·.1)).Nodup) : (folder entries).Same (folder entries') := by
  have hlookup : ∀ name, entries.lookup name = entries'.lookup name := by
    intro name
    ext t
    rw [lookup_eq_some_iff hnames, lookup_eq_some_iff ((h.map _).nodup_iff.1 hnames), h.mem_iff]
  intro names
  cases names with
  | nil => rfl
  | cons name rest =>
    show ((entries.lookup name).bind _).map kind = ((entries'.lookup name).bind _).map kind
    rw [hlookup]

/-- Paths lead to all folders at and below an entry. -/
def InReach (path : String) (t : FileTree) : Prop :=
  ∀ steps entry, t.at? steps = some entry → entry.isFolder = true →
    Path.isUsable (Path.below path steps) = true

theorem InReach.reached {entry : FileTree} (h : InReach path t) (hat : t.at? steps = some entry) :
    Reached path steps := by
  induction steps generalizing t path with
  | nil => trivial
  | cons name rest ih =>
    cases t with
    | folder entries =>
      obtain ⟨inner, hname, hat⟩ := Option.bind_eq_some_iff.1 hat
      refine ⟨h [] _ rfl rfl, ih (fun more entry hmore => ?_) hat⟩
      exact h (name :: more) entry (Option.bind_eq_some_iff.2 ⟨inner, hname, hmore⟩)
    | _ => cases hat

/-- **Where paths lead to all folders, a search takes exactly the files that are named like
modules**, and fails at every folder that cannot be listed. -/
theorem InReach.meets_iff (h : InReach path t) (steps : List String) :
    (Meets Taken path t steps ↔ (∃ content, t.at? steps = some (.file content)) ∧
      isModuleName (Path.below path steps) = true) ∧
    (Meets Barred path t steps ↔ t.at? steps = some .locked) := by
  refine ⟨⟨?_, ?_⟩, ?_, fun hat => ⟨h.reached hat, _, hat, rfl, h steps _ hat rfl⟩⟩
  · rintro ⟨-, entry, hat, hleaf, hnamed⟩
    refine ⟨?_, hnamed⟩
    cases entry with
    | file content => exact ⟨content, hat⟩
    | _ => cases (h steps _ hat rfl).symm.trans (hleaf rfl)
  · rintro ⟨⟨content, hat⟩, hnamed⟩
    exact ⟨h.reached hat, _, hat, nofun, hnamed⟩
  · rintro ⟨-, entry, hat, rfl, -⟩
    exact hat

end FileTree

end InteropTables
