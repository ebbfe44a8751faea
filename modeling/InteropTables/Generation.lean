import InteropTables.Assembly.Load
import InteropTables.Interop.Artifact
import InteropTables.Workspace

/-!
# A generation run

Modules are read from files and scanned, the findings are put together in the order of the files,
and the text made of them is written to one file. Nothing is written unless all of that succeeds.

* `Generation`: what a run is asked for;
* `scanFile`, `scanFiles`: the findings in one file and in several;
* `Generation.scan`, `Generation.render`, `Generation.write`: a run up to its findings, its text and
  its file.

The report of a single file is part of the report of the run only if the run reads no other.
-/

namespace InteropTables

/-- What a run is asked for. -/
structure Generation where
  /-- The native modules to make import tables for. -/
  modules : NativeModules := .empty
  /-- The paths of the modules to scan. -/
  assemblies : List String := []
  /-- The path of the file to write. -/
  output : Option String := none

/-- A result, and the report of the work for it. -/
structure Reported (α : Type) where
  result : α
  events : List Event

/-! ## 1. Findings -/

/-- The findings in a module, given its bytes. -/
def scanBytes (data : ByteArray) : Reported (Except Fault Findings) :=
  match Assembly.load data with
  | .ok (a, events) => ⟨a.scan, events ++ a.scanEvents⟩
  | .error e => ⟨.error e, []⟩

/-- The findings in a file. -/
def scanFile (files : Workspace) (path : String) : Reported (Except Fault Findings) :=
  match files.read path with
  | .ok data =>
    let scanned := scanBytes data
    ⟨scanned.result, .collecting path :: scanned.events⟩
  | .error e => ⟨.error e, [.collecting path]⟩

/-- The findings in all files, or the failure of the first file that fails. -/
def scanFiles (files : Workspace) (paths : List String) : Reported (Except Fault Findings) :=
  let scans := paths.map (scanFile files)
  let ownEvents := if paths.length = 1 then scans.flatMap (·.events) else []
  match scans.mapM (·.result) with
  | .ok found =>
    let all := Findings.concat found
    ⟨.ok all, ownEvents ++ [.found all.calls.length all.callbacks.length paths.length]⟩
  | .error e => ⟨.error e, ownEvents⟩

namespace Generation

/-- The findings of a run. -/
def scan (g : Generation) (files : Workspace) : Reported (Except Fault Findings) :=
  scanFiles files g.assemblies

/-! ## 2. Text and file -/

/-- The text of a run. -/
def render (g : Generation) (files : Workspace) : Reported (Except Fault String) :=
  let scanned := g.scan files
  match scanned.result with
  | .ok found =>
    let artifact := Artifact.render found g.modules
    ⟨artifact.text, scanned.events ++ artifact.events⟩
  | .error e => ⟨.error e, scanned.events⟩

/-- The files after a run. A run without a place to write to does nothing at all. -/
def write (g : Generation) (files : Workspace) : Reported (Except Fault Workspace) :=
  match g.output with
  | none => ⟨.error .noOutputPath, []⟩
  | some path =>
    let rendered := g.render files
    match rendered.result with
    | .ok text => ⟨files.write path text.toUTF8, rendered.events ++ [.writing path]⟩
    | .error e => ⟨.error e, rendered.events⟩

end Generation

end InteropTables
