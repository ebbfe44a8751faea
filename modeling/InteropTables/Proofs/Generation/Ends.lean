import InteropTables.Generation
import InteropTables.Proofs.Files
import InteropTables.Proofs.Interop.Rendering

/-!
# How a run may end

What becomes of a run is told by what came of its modules, one by one, and by the place that it
writes to. A run without such a place ends at once; then the first module that fails decides; then
the findings of all modules make a text or fail to; and only then is anything written.

* `result_scanFiles`, `scanFiles_eq_ok_iff`: what a scan of several files gives;
* `Generation.Ends`: the ends of a run, with the files that it leaves behind;
* `Generation.settle`, `ends_iff`: **there is one end for each outcome of the modules**;
* `settle_scanned`: the run that the library makes.
-/

namespace InteropTables

/-! ## 1. Scans of several files -/

theorem result_scanFiles (files : Workspace) (paths : List String) : (scanFiles files paths).result
    = (paths.mapM fun path => (scanFile files path).result).map .concat := by
  have hscans : (paths.mapM fun path => (scanFile files path).result)
      = (paths.map (scanFile files)).mapM (·.result) := List.mapM_map.symm
  unfold scanFiles
  rw [hscans]
  dsimp only
  cases (paths.map (scanFile files)).mapM (·.result) <;> rfl

/-- A scan of several files finds what is found in each of them. -/
theorem scanFiles_eq_ok_iff {files : Workspace} {paths : List String} {found : Findings} :
    (scanFiles files paths).result = .ok found ↔ ∃ parts,
      List.Forall₂ (fun path part => (scanFile files path).result = .ok part) paths parts ∧
        Findings.concat parts = found := by
  simp only [result_scanFiles, ← mapM_eq_ok_iff]
  constructor
  · exact exists_of_map_ok
  · rintro ⟨parts, hparts, rfl⟩
    rw [hparts]
    rfl

/-! ## 2. Ends -/

/-- The ends of a run, given what came of its modules, in their order, and the files before it: the
result, and the files that it leaves behind. -/
inductive Generation.Ends (g : Generation) (outcomes : List (Except Fault Findings))
    (files : Workspace) : Except Fault Unit → Workspace → Prop where
  /-- There is no place to write to. -/
  | unplaced (hplace : g.output = none) : Ends g outcomes files (.error .noOutputPath) files
  /-- A module fails, and no module in front of it does. -/
  | unscanned {path : String} {front behind : List (Except Fault Findings)} {e : Fault}
      (hplace : g.output = some path) (hsplit : outcomes = front ++ .error e :: behind)
      (hfront : ∀ outcome ∈ front, ∃ found, outcome = .ok found) :
      Ends g outcomes files (.error e) files
  /-- The findings of all modules make no text. -/
  | unrendered {path : String} {found : List Findings} {e : Fault} (hplace : g.output = some path)
      (hscanned : outcomes = found.map .ok)
      (hrendered : (Findings.concat found).Renders g.modules (.error e)) :
      Ends g outcomes files (.error e) files
  /-- Nothing can be written to the place. -/
  | unopened {path : String} {found : List Findings} {text : String} (hplace : g.output = some path)
      (hscanned : outcomes = found.map .ok)
      (hrendered : (Findings.concat found).Renders g.modules (.ok text))
      (hshut : ∀ content after, files.write path content ≠ .ok after) :
      Ends g outcomes files (.error .fileAccess) files
  /-- The text of the findings of all modules is written, and nothing else. -/
  | written {path : String} {found : List Findings} {text : String} {after : Workspace}
      (hplace : g.output = some path) (hscanned : outcomes = found.map .ok)
      (hrendered : (Findings.concat found).Renders g.modules (.ok text))
      (hopen : files.write path text.toUTF8 = .ok after)
      (hwritten : files.WrittenAt path text.toUTF8 after) : Ends g outcomes files (.ok ()) after

namespace Generation

/-- The end of a run, given what came of its modules. -/
def settle (g : Generation) (outcomes : List (Except Fault Findings)) (files : Workspace) :
    Except Fault Unit × Workspace :=
  match g.output with
  | none => (.error .noOutputPath, files)
  | some path =>
    match outcomes.mapM id with
    | .error e => (.error e, files)
    | .ok found =>
      match (Artifact.render (.concat found) g.modules).text with
      | .error e => (.error e, files)
      | .ok text =>
        match files.write path text.toUTF8 with
        | .error e => (.error e, files)
        | .ok after => (.ok (), after)

variable {g : Generation} {outcomes : List (Except Fault Findings)} {files after : Workspace}
  {result : Except Fault Unit}

theorem mapM_id_eq_ok_iff {found : List Findings} :
    outcomes.mapM id = .ok found ↔ outcomes = found.map .ok := by
  rw [mapM_eq_ok_iff, ← List.forall₂_eq_eq_eq, List.forall₂_map_right_iff]
  rfl

theorem mapM_id_eq_error_iff {e : Fault} : outcomes.mapM id = .error e ↔
    ∃ front behind, outcomes = front ++ .error e :: behind ∧
      ∀ outcome ∈ front, ∃ found, outcome = .ok found := by
  rw [mapM_eq_error_iff]
  constructor
  · rintro ⟨front, a, behind, hsplit, hfront, ha⟩
    obtain rfl : a = .error e := ha
    exact ⟨front, behind, hsplit, hfront⟩
  · rintro ⟨front, behind, hsplit, hfront⟩
    exact ⟨front, .error e, behind, hsplit, hfront, rfl⟩

/-- **There is one end for each outcome of the modules.** -/
theorem ends_iff :
    g.Ends outcomes files result after ↔ g.settle outcomes files = (result, after) := by
  constructor
  · intro h
    unfold settle
    cases h with
    | unplaced hplace => rw [hplace]
    | unscanned hplace hsplit hfront =>
      rw [hplace]
      dsimp only
      rw [mapM_id_eq_error_iff.2 ⟨_, _, hsplit, hfront⟩]
    | unrendered hplace hscanned hrendered =>
      rw [hplace]
      dsimp only
      rw [mapM_id_eq_ok_iff.2 hscanned]
      dsimp only
      rw [renders_iff.1 hrendered]
    | @unopened path found text hplace hscanned hrendered hshut =>
      rw [hplace]
      dsimp only
      rw [mapM_id_eq_ok_iff.2 hscanned]
      dsimp only
      rw [renders_iff.1 hrendered]
      rcases files.write_cases path text.toUTF8 with ⟨after, hopen⟩ | ⟨hclosed, -⟩
      · exact absurd hopen (hshut _ _)
      · dsimp only
        rw [hclosed]
    | written hplace hscanned hrendered hopen hwritten =>
      rw [hplace]
      dsimp only
      rw [mapM_id_eq_ok_iff.2 hscanned]
      dsimp only
      rw [renders_iff.1 hrendered]
      dsimp only
      rw [hopen]
  · intro h
    unfold settle at h
    split at h
    · rename_i hplace
      obtain ⟨rfl, rfl⟩ := Prod.mk.inj h
      exact .unplaced hplace
    rename_i path hplace
    split at h
    · rename_i e hfailed
      obtain ⟨rfl, rfl⟩ := Prod.mk.inj h
      obtain ⟨front, behind, hsplit, hfront⟩ := mapM_id_eq_error_iff.1 hfailed
      exact .unscanned hplace hsplit hfront
    rename_i found hfound
    have hscanned := mapM_id_eq_ok_iff.1 hfound
    split at h
    · rename_i e htext
      obtain ⟨rfl, rfl⟩ := Prod.mk.inj h
      exact .unrendered hplace hscanned (renders_iff.2 htext)
    rename_i text htext
    have hrendered := renders_iff.2 htext
    split at h
    · rename_i e hshut
      obtain ⟨rfl, rfl⟩ := Prod.mk.inj h
      rcases files.write_cases path text.toUTF8 with ⟨after, hopen⟩ | ⟨hclosed, hnone⟩
      · cases hshut.symm.trans hopen
      · obtain rfl := Except.error.inj (hshut.symm.trans hclosed)
        exact .unopened hplace hscanned hrendered hnone
    · rename_i hopen
      obtain ⟨rfl, rfl⟩ := Prod.mk.inj h
      exact .written hplace hscanned hrendered hopen (Workspace.writtenAt_of_write hopen)

/-! ## 3. The run of the library -/

/-- What comes of the modules of a run when the library reads them. -/
def scanned (g : Generation) (files : Workspace) : List (Except Fault Findings) :=
  g.assemblies.map fun path => (scanFile files path).result

/-- The result of a run that the library makes, and the files after it. -/
def leaves (g : Generation) (files : Workspace) : Except Fault Unit × Workspace :=
  match (g.write files).result with
  | .ok after => (.ok (), after)
  | .error e => (.error e, files)

theorem result_scan (g : Generation) (files : Workspace) :
    (g.scan files).result = ((g.scanned files).mapM id).map .concat := by
  unfold scanned
  rw [List.mapM_map]
  exact result_scanFiles files g.assemblies

theorem result_render (g : Generation) (files : Workspace) :
    (g.render files).result = ((g.scanned files).mapM id >>= fun found =>
      (Artifact.render (.concat found) g.modules).text) := by
  unfold render
  dsimp only
  rw [result_scan]
  cases (g.scanned files).mapM id <;> rfl

/-- **The run that the library makes has the end of what it reads.** -/
theorem settle_scanned (g : Generation) (files : Workspace) :
    g.settle (g.scanned files) files = g.leaves files := by
  unfold settle leaves write
  cases g.output with
  | none => rfl
  | some path =>
    dsimp only
    rw [result_render]
    cases (g.scanned files).mapM id with
    | error e => rfl
    | ok found =>
      rw [bind_ok]
      dsimp only
      cases (Artifact.render (.concat found) g.modules).text with
      | error e => rfl
      | ok text =>
        dsimp only
        cases files.write path text.toUTF8 <;> rfl

end Generation

end InteropTables
