import InteropTables.Proofs.Generation.Ends
import InteropTables.Proofs.Interop.CallOrder
import Mathlib.Data.Finset.Card
import Mathlib.Data.Fintype.Basic
import Mathlib.Logic.Relation

/-!
# A run step by step

The modules of a run are read by workers that finish in any order; what came of them is then gone
through in the order of the modules. The file is emptied when it is opened, and filled piece by
piece. Whatever the workers do and whatever comes of the modules, the run has one end, and before
its whole text is there no file is touched.

* `Generation.Outcome`: what may come of the modules; `Generation.reading`: what does;
* `Generation.Stage`, `Generation.State`, `Generation.Step`: where a run stands, and how it goes on;
* `State.Sound`: what is true wherever a run stands;
* `sound_step`, `sound_of_reaches`: **one step, and a whole run**;
* `exists_step`, `step_decreases`, `exists_end`: a run goes on until it ends, and it ends;
* `run_ends`: **how a run ends.**
-/

namespace InteropTables

open Relation (ReflTransGen)

namespace Generation

/-! ## 1. Steps -/

/-- Findings or a failure of each module of a run, by its place in the list. -/
abbrev Results (g : Generation) : Type :=
  Fin g.assemblies.length → Except Fault Findings

/-- What the workers of a run that have finished left, each in a place of its own. -/
abbrev Slots (g : Generation) : Type :=
  Fin g.assemblies.length → Option (Except Fault Findings)

/-- What may come of the modules of a run, as the files are when they are read. -/
def Outcome (g : Generation) : Type :=
  Workspace → g.Results

/-- What comes of the modules when the library reads them. -/
def reading (g : Generation) : g.Outcome := fun files i =>
  (scanFile files g.assemblies[i]).result

/-- Where a run stands. -/
inductive Stage (g : Generation) where
  /-- Nothing was done. -/
  | asked
  /-- Some of the workers have finished. -/
  | scanning (path : String) (slots : g.Slots)
  /-- All findings are put together. -/
  | merged (path : String) (found : Findings)
  /-- The file holds a part of the text. -/
  | writing (path : String) (done rest : List UInt8)
  | ended (result : Except Fault Unit)

/-- A run, with the files as they are. -/
structure State (g : Generation) where
  files : Workspace
  stage : g.Stage

/-- How a run goes on. Workers finish in any order, and the pieces of the text are of any size. -/
inductive Step (g : Generation) (outcome : g.Outcome) : g.State → g.State → Prop where
  | refuse {files : Workspace} (hplace : g.output = none) :
      Step g outcome ⟨files, .asked⟩ ⟨files, .ended (.error .noOutputPath)⟩
  | start {files : Workspace} {path : String} (hplace : g.output = some path) :
      Step g outcome ⟨files, .asked⟩ ⟨files, .scanning path fun _ => none⟩
  | finish {files : Workspace} {path : String} {slots : g.Slots} {i : Fin g.assemblies.length}
      (hopen : slots i = none) :
      Step g outcome ⟨files, .scanning path slots⟩
        ⟨files, .scanning path (Function.update slots i (some (outcome files i)))⟩
  | fail {files : Workspace} {path : String} {slots : g.Slots} {results : g.Results} {e : Fault}
      (hall : ∀ i, slots i = some (results i))
      (hfailed : (List.ofFn results).mapM id = .error e) :
      Step g outcome ⟨files, .scanning path slots⟩ ⟨files, .ended (.error e)⟩
  | merge {files : Workspace} {path : String} {slots : g.Slots} {results : g.Results}
      {parts : List Findings} (hall : ∀ i, slots i = some (results i))
      (hparts : (List.ofFn results).mapM id = .ok parts) :
      Step g outcome ⟨files, .scanning path slots⟩ ⟨files, .merged path (.concat parts)⟩
  | reject {files : Workspace} {path : String} {found : Findings} {e : Fault}
      (htext : (Artifact.render found g.modules).text = .error e) :
      Step g outcome ⟨files, .merged path found⟩ ⟨files, .ended (.error e)⟩
  | shut {files : Workspace} {path : String} {found : Findings} {text : String} {e : Fault}
      (htext : (Artifact.render found g.modules).text = .ok text)
      (hshut : files.write path (Bytes.ofList []) = .error e) :
      Step g outcome ⟨files, .merged path found⟩ ⟨files, .ended (.error e)⟩
  | empty {files emptied : Workspace} {path : String} {found : Findings} {text : String}
      (htext : (Artifact.render found g.modules).text = .ok text)
      (hopen : files.write path (Bytes.ofList []) = .ok emptied) :
      Step g outcome ⟨files, .merged path found⟩
        ⟨emptied, .writing path [] (Bytes.toList text.toUTF8)⟩
  | flush {files filled : Workspace} {path : String} {done piece rest : List UInt8}
      (hpiece : piece ≠ [])
      (hwrite : files.write path (Bytes.ofList (done ++ piece)) = .ok filled) :
      Step g outcome ⟨files, .writing path done (piece ++ rest)⟩
        ⟨filled, .writing path (done ++ piece) rest⟩
  | close {files : Workspace} {path : String} {done : List UInt8} :
      Step g outcome ⟨files, .writing path done []⟩ ⟨files, .ended (.ok ())⟩

/-- A run that starts with some files gets to a state. -/
def Reaches (g : Generation) (outcome : g.Outcome) (files : Workspace) (s : g.State) : Prop :=
  ReflTransGen (g.Step outcome) ⟨files, .asked⟩ s

variable {g : Generation} {outcome : g.Outcome} {files : Workspace} {s s' : g.State}

/-! ## 2. What stays true -/

/-- What is true wherever a run stands: until the whole text is there the files are those of the
start, the slots hold what came of the modules, and an end is one that the outcomes allow. -/
def State.Sound (outcome : g.Outcome) (files : Workspace) (s : g.State) : Prop :=
  match s.stage with
  | .asked => s.files = files
  | .scanning path slots => s.files = files ∧ g.output = some path ∧
      ∀ i result, slots i = some result → result = outcome files i
  | .merged path found => s.files = files ∧ g.output = some path ∧
      ∃ parts, List.ofFn (outcome files) = parts.map .ok ∧ found = .concat parts
  | .writing path done rest => g.output = some path ∧
      ∃ parts text, List.ofFn (outcome files) = parts.map .ok ∧
        (Findings.concat parts).Renders g.modules (.ok text) ∧
        done ++ rest = Bytes.toList text.toUTF8 ∧
        files.write path (Bytes.ofList done) = .ok s.files
  | .ended result => g.Ends (List.ofFn (outcome files)) files result s.files

/-- Workers that have all finished left what came of the modules. -/
theorem results_eq {slots : g.Slots} {results : g.Results} (hall : ∀ i, slots i = some (results i))
    (hslots : ∀ i result, slots i = some result → result = outcome files i) :
    results = outcome files :=
  funext fun i => hslots i (results i) (hall i)

/-- **One step** keeps what is true of a run. -/
theorem sound_step (h : s.Sound outcome files) (hstep : g.Step outcome s s') :
    s'.Sound outcome files := by
  cases hstep with
  | refuse hplace =>
    obtain rfl : _ = files := h
    exact .unplaced hplace
  | start hplace => exact ⟨h, hplace, fun _ _ h => nomatch h⟩
  | @finish _ _ _ i hopen =>
    obtain ⟨rfl, hplace, hslots⟩ := h
    refine ⟨rfl, hplace, fun j result hj => ?_⟩
    by_cases hsame : j = i
    · subst hsame
      rw [Function.update_self] at hj
      exact (Option.some.inj hj).symm
    · rw [Function.update_of_ne hsame] at hj
      exact hslots j result hj
  | fail hall hfailed =>
    obtain ⟨rfl, hplace, hslots⟩ := h
    rw [results_eq hall hslots] at hfailed
    obtain ⟨front, behind, hsplit, hfront⟩ := mapM_id_eq_error_iff.1 hfailed
    exact .unscanned hplace hsplit hfront
  | merge hall hparts =>
    obtain ⟨rfl, hplace, hslots⟩ := h
    rw [results_eq hall hslots] at hparts
    exact ⟨rfl, hplace, _, mapM_id_eq_ok_iff.1 hparts, rfl⟩
  | reject htext =>
    obtain ⟨rfl, hplace, parts, hparts, rfl⟩ := h
    exact .unrendered hplace hparts (renders_iff.2 htext)
  | shut htext hshut =>
    obtain ⟨rfl, hplace, parts, hparts, rfl⟩ := h
    rcases Workspace.write_cases _ _ _ with ⟨after, hopen⟩ | ⟨hclosed, hnone⟩
    · cases hshut.symm.trans hopen
    · obtain rfl := Except.error.inj (hshut.symm.trans hclosed)
      exact .unopened hplace hparts (renders_iff.2 htext) hnone
  | empty htext hopen =>
    obtain ⟨rfl, hplace, parts, hparts, rfl⟩ := h
    exact ⟨hplace, parts, _, hparts, renders_iff.2 htext, rfl, hopen⟩
  | flush hpiece hwrite =>
    obtain ⟨hplace, parts, text, hparts, hrendered, hsplit, hdone⟩ := h
    -- The file is written once more from its beginning, so only the last write counts.
    rw [Workspace.write_write hdone] at hwrite
    exact ⟨hplace, parts, text, hparts, hrendered, (List.append_assoc ..).trans hsplit, hwrite⟩
  | close =>
    obtain ⟨hplace, parts, text, hparts, hrendered, hsplit, hdone⟩ := h
    rw [List.append_nil] at hsplit
    rw [hsplit] at hdone
    exact .written hplace hparts hrendered hdone (Workspace.writtenAt_of_write hdone)

/-- **A whole run** keeps it. -/
theorem sound_of_reaches (h : g.Reaches outcome files s) : s.Sound outcome files := by
  induction h with
  | refl => exact rfl
  | tail _ hstep ih => exact sound_step ih hstep

/-! ## 3. Ends -/

/-- The file was opened. -/
def Stage.hasOpened : g.Stage → Bool
  | .writing _ _ _ => true
  | .ended (.ok ()) => true
  | _ => false

/-- Until the file is opened no file is touched. -/
theorem files_of_sound (h : s.Sound outcome files) (hstage : s.stage.hasOpened = false) :
    s.files = files := by
  obtain ⟨now, stage⟩ := s
  cases stage with
  | asked => exact h
  | scanning path slots => exact h.1
  | merged path found => exact h.1
  | writing path done rest => cases hstage
  | ended result =>
    cases h with
    | written => cases hstage
    | _ => rfl

/-- **A run goes on until it ends.** -/
theorem exists_step (h : s.Sound outcome files) :
    (∃ result, s.stage = .ended result) ∨ ∃ s', g.Step outcome s s' := by
  obtain ⟨now, stage⟩ := s
  cases stage with
  | asked =>
    cases hplace : g.output with
    | none => exact .inr ⟨_, .refuse hplace⟩
    | some path => exact .inr ⟨_, .start hplace⟩
  | scanning path slots =>
    by_cases hall : ∀ i, ∃ result, slots i = some result
    · choose results hresults using hall
      cases hmerged : (List.ofFn results).mapM id with
      | error e => exact .inr ⟨_, .fail hresults hmerged⟩
      | ok parts => exact .inr ⟨_, .merge hresults hmerged⟩
    · obtain ⟨i, hi⟩ := not_forall.1 hall
      have hopen : slots i = none := Option.eq_none_iff_forall_ne_some.2 (not_exists.1 hi)
      exact .inr ⟨_, .finish hopen⟩
  | merged path found =>
    cases htext : (Artifact.render found g.modules).text with
    | error e => exact .inr ⟨_, .reject htext⟩
    | ok text =>
      cases hopen : now.write path (Bytes.ofList []) with
      | error e => exact .inr ⟨_, .shut htext hopen⟩
      | ok emptied => exact .inr ⟨_, .empty htext hopen⟩
  | writing path done rest =>
    obtain ⟨-, parts, text, -, -, -, hdone⟩ := h
    by_cases hrest : rest = []
    · subst hrest
      exact .inr ⟨_, .close⟩
    · obtain ⟨filled, hfilled⟩ := Workspace.exists_write hdone (Bytes.ofList (done ++ rest))
      rw [← Workspace.write_write hdone] at hfilled
      rw [← List.append_nil rest]
      exact .inr ⟨_, .flush hrest hfilled⟩
  | ended result => exact .inl ⟨result, rfl⟩

/-- How far a run is from its end: the stages in front of it, and the workers or bytes that are
left. -/
def Stage.distance : g.Stage → Nat × Nat
  | .asked => (4, 0)
  | .scanning _ slots => (3, (Finset.univ.filter fun i => slots i = none).card)
  | .merged _ _ => (2, 0)
  | .writing _ _ rest => (1, rest.length)
  | .ended _ => (0, 0)

/-- **Every step brings a run closer to its end.** -/
theorem step_decreases (hstep : g.Step outcome s s') :
    Prod.Lex (· < ·) (· < ·) s'.stage.distance s.stage.distance := by
  cases hstep with
  | @finish _ _ slots i hopen =>
    refine .right _ (Finset.card_lt_card (Finset.ssubset_iff_of_subset ?_ |>.2 ⟨i, ?_, ?_⟩))
    · intro j hj
      rw [Finset.mem_filter] at hj ⊢
      refine ⟨hj.1, ?_⟩
      by_cases hsame : j = i
      · rw [hsame, hopen]
      · rw [← hj.2, Function.update_of_ne hsame]
    · exact Finset.mem_filter.2 ⟨Finset.mem_univ i, hopen⟩
    · rw [Finset.mem_filter, Function.update_self]
      exact fun h => nomatch h.2
  | @flush _ _ _ _ piece rest hpiece _ =>
    refine .right _ ?_
    have hpos := List.length_pos_iff.2 hpiece
    show rest.length < (piece ++ rest).length
    rw [List.length_append]
    omega
  | _ => exact .left _ _ (by decide)

/-- **A run ends.** The induction is on how far it is from its end. -/
theorem exists_end (h : s.Sound outcome files) :
    ∃ result after, ReflTransGen (g.Step outcome) s ⟨after, .ended result⟩ := by
  generalize hdistance : s.stage.distance = distance
  induction distance using
    (WellFounded.prod_lex Nat.lt_wfRel.wf Nat.lt_wfRel.wf).induction generalizing s with
  | h distance ih =>
  rcases exists_step h with ⟨result, hended⟩ | ⟨s', hstep⟩
  · obtain ⟨after, stage⟩ := s
    obtain rfl : stage = .ended result := hended
    exact ⟨result, after, .refl⟩
  · obtain ⟨result, after, hrest⟩ :=
      ih _ (hdistance ▸ step_decreases hstep) (sound_step h hstep) rfl
    exact ⟨result, after, .head hstep hrest⟩

/-! ## 4. All runs -/

/-- **A run gets to the ends that the outcomes of its modules allow**, and to no other. -/
theorem reaches_ended_iff {result : Except Fault Unit} {after : Workspace} :
    g.Reaches outcome files ⟨after, .ended result⟩ ↔
      g.Ends (List.ofFn (outcome files)) files result after := by
  refine ⟨fun h => sound_of_reaches h, fun h => ?_⟩
  obtain ⟨result', after', hreaches⟩ := exists_end (sound_of_reaches .refl)
  have hends := ends_iff.1 (sound_of_reaches hreaches)
  obtain ⟨rfl, rfl⟩ := Prod.mk.inj (hends.symm.trans (ends_iff.1 h))
  exact hreaches

theorem ofFn_reading (g : Generation) (files : Workspace) :
    List.ofFn (g.reading files) = g.scanned files := by
  unfold scanned
  refine List.ext_getElem (by simp) fun i hi hi' => ?_
  rw [List.getElem_ofFn, List.getElem_map]
  rfl

/-- **How a run ends.** Whatever came of the modules and in whatever order the workers finished, a
run goes on until it ends, no file is touched before the one to write to was opened, and the end is
the one that the outcomes allow: a failure that leaves all files as they were, or the whole text in
its place and all other files as they were. The run that the library makes is one of these. -/
theorem run_ends (g : Generation) (outcome : g.Outcome) (files : Workspace) :
    (∀ s, g.Reaches outcome files s →
      ∃ result after, ReflTransGen (g.Step outcome) s ⟨after, .ended result⟩) ∧
    (∀ s, g.Reaches outcome files s → s.stage.hasOpened = false → s.files = files) ∧
    (∀ result after, g.Reaches outcome files ⟨after, .ended result⟩ ↔
      g.Ends (List.ofFn (outcome files)) files result after) ∧
    ∀ result after, g.Reaches g.reading files ⟨after, .ended result⟩ ↔
      g.leaves files = (result, after) := by
  refine ⟨fun s hs => exists_end (sound_of_reaches hs),
    fun s hs => files_of_sound (sound_of_reaches hs), fun _ _ => reaches_ended_iff, ?_⟩
  intro result after
  rw [reaches_ended_iff, ofFn_reading, ends_iff, settle_scanned]

/-- A run over two modules, with the import table of one native module. -/
def twoModules : Generation where
  modules := .ofList ["clock"]
  assemblies := ["a", "b"]
  output := some "t"

/-- What is found in a module that calls native code. -/
def stopFindings : Findings where
  calls := [stopCall]

/-- What is found in a module that native code calls. -/
def tickFindings : Findings where
  callbacks := [.plain "Timer" "Tick" 2]

/-- What is rendered of both. -/
def stopAndTickText : String :=
  declarationsText stopFindings.calls twoModules.modules
    ++ trampolinesText (tickFindings.callbacks.map Callback.withName)

theorem render_stopAndTick :
    (Artifact.render (.concat [stopFindings, tickFindings]) twoModules.modules).text
      = .ok stopAndTickText := by
  have hemit : emitTrampolines tickFindings.callbacks
      = (.ok (trampolinesText (tickFindings.callbacks.map Callback.withName)),
        tickFindings.callbacks.map Callback.withName) :=
    emitTrampolines_of_sorted (by decide) (by decide) (by decide)
  show (Artifact.render ⟨stopFindings.calls, tickFindings.callbacks⟩ twoModules.modules).text = _
  rw [Artifact.render, hemit]
  rfl

/-- When the second module fails the run fails, though a call was found in the first one. When a
callback is found in the second one the text of both is written. -/
theorem run_ends_twoModules :
    twoModules.Reaches (fun _ i => if i.val = 0 then .ok stopFindings else .error .fileAccess)
      ⟨.folder [], []⟩ ⟨⟨.folder [], []⟩, .ended (.error .fileAccess)⟩ ∧
    ∃ after, twoModules.Reaches
        (fun _ i => if i.val = 0 then .ok stopFindings else .ok tickFindings)
        ⟨.folder [], []⟩ ⟨after, .ended (.ok ())⟩ ∧
      after.read "t" = .ok stopAndTickText.toUTF8 := by
  constructor
  · refine ((run_ends twoModules _ _).2.2.1 _ _).2 ?_
    have hfirst : ∀ outcome ∈ [(.ok stopFindings : Except Fault Findings)],
        ∃ found, outcome = .ok found :=
      fun outcome houtcome => ⟨stopFindings, List.mem_singleton.1 houtcome⟩
    exact .unscanned rfl rfl hfirst
  · have hroom : ((⟨.folder [], []⟩ : Workspace).write "t" (Bytes.ofList [])).toOption.any
        (fun _ => true) = true := by decide +kernel
    obtain ⟨emptied, hemptied, -⟩ := exists_of_any hroom
    obtain ⟨after, hafter⟩ := Workspace.exists_write hemptied stopAndTickText.toUTF8
    have hwritten := Workspace.writtenAt_of_write hafter
    refine ⟨after, ((run_ends twoModules _ _).2.2.1 _ _).2 ?_, ?_⟩
    · have hparts : List.ofFn (fun i : Fin 2 => if i.val = 0 then .ok stopFindings
          else (.ok tickFindings : Except Fault Findings))
          = [stopFindings, tickFindings].map .ok := rfl
      exact .written rfl hparts (renders_iff.2 render_stopAndTick) hafter hwritten
    · exact hwritten.read_eq_ok_iff.2 (by rw [if_pos rfl]; exact ⟨by decide +kernel, rfl⟩)

end Generation

end InteropTables
