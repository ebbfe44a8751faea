import InteropTables.CommandLine.Run
import InteropTables.CommandLine.Usage

/-!
# The program

The outer layer: it takes over from the disk what the arguments name, runs the command on that, and
shows and writes what comes out. Nothing is decided here.

* `entryAt`: what the disk holds at a path;
* `Workspace.takeIn`: the workspace with one more path taken over;
* `main`: the program.
-/

namespace InteropTables

/-- The value of an action, unless it fails. -/
def attempt {α : Type} (act : IO α) : IO (Option α) := do
  match ← act.toBaseIO with
  | .ok a => return some a
  | .error _ => return none

/-- Whether the disk holds a folder at a path. -/
def isFolderAt (path : String) : IO Bool := do
  match ← attempt (IO.FS.realPath path) with
  | some place => place.isDir
  | none => return false

/-- What the disk holds below a folder. Files that are no modules stand in it without content. -/
partial def folderAt (path : String) : IO FileTree := do
  let place ← IO.FS.realPath path
  match ← attempt place.readDir with
  | none => return .locked
  | some entries =>
    let named ← entries.toList.mapM fun entry => do
      let below := Path.join path entry.fileName
      if ← isFolderAt below then
        return (entry.fileName, ← folderAt below)
      else if isModuleName below then
        return (entry.fileName, .file (← IO.FS.readBinFile below))
      else
        return (entry.fileName, .file ByteArray.empty)
    return .folder named

/-- What the disk holds at a path, if anything that can be read. -/
def entryAt (path : String) : IO (Option FileTree) := do
  if ← isFolderAt path then
    return some (← folderAt path)
  else
    return (← attempt (IO.FS.readBinFile path)).map .file

/-- A path, and the paths of the folders that lead from it down the given steps. -/
def pathsDown (path : String) : List String → List String
  | [] => [path]
  | step :: steps => path :: pathsDown (Path.join path step) steps

/-- The workspace with an entry set at a path, if there is one to set. -/
def Workspace.graft (w : Workspace) (path : String) (entry : Option FileTree) : Workspace :=
  match entry, w.locate? path with
  | some entry, some names => { w with root := w.root.graft names entry }
  | _, _ => w

/-- The workspace with a path taken over: the folders that lead to it, without what else they hold,
and the entry that `last` gives for it. -/
def Workspace.takeIn (last : String → IO (Option FileTree)) (w : Workspace) (path : String) :
    IO Workspace := do
  let paths := pathsDown (if Path.isAbsolute path then "/" else ".") (Path.parts path)
  let mut w := w
  for folder in paths.dropLast do
    if (w.find? folder).isNone && (← isFolderAt folder) then
      w := w.graft folder (some (.folder []))
  match path.isEmpty, paths.getLast? with
  | false, some path => return w.graft path (← last path)
  | _, _ => return w

/-- An output as far as it matters before it is written: a folder cannot become a file. -/
def outputAt (path : String) : IO (Option FileTree) := do
  return if ← isFolderAt path then some (.folder []) else none

/-- The paths that a command reads. -/
def Command.inputs : Command → List String
  | generate _ _ inputs => inputs
  | scan inputs => inputs

/-- The path that a command writes. -/
def Command.output? : Command → Option String
  | generate _ output _ => some output
  | scan _ => none

/-- The part of the disk that a command needs. -/
def takeOver (command : Command) : IO Workspace := do
  let folder := Path.parts (← IO.currentDir).toString
  let start : Workspace := { root := (FileTree.folder []).graft folder (.folder []), folder }
  let withOutput ← command.output?.toList.foldlM (Workspace.takeIn outputAt) start
  command.inputs.foldlM (Workspace.takeIn entryAt) withOutput

/-- Writes to the disk what a command wrote. -/
def writeBack (command : Command) (files : Workspace) : IO Unit := do
  match command.output? with
  | none => return
  | some path =>
    match files.read path with
    | .ok content => IO.FS.writeBinFile path content
    | .error _ => return

/-- Shows the report of a run. Steps are reported only on demand, and nothing next to JSON. -/
def showEvents (invocation : Invocation) (events : List Event) : IO Unit := do
  unless invocation.json do
    for event in events do
      if invocation.verbose || event.level == .info then
        IO.eprintln event.line

/-- Runs an invocation on the disk. -/
def perform (invocation : Invocation) : IO UInt32 := do
  let outcome := invocation.run (← takeOver invocation.command)
  showEvents invocation outcome.events
  match outcome.result with
  | .ok () =>
    writeBack invocation.command outcome.files
    IO.print outcome.printed
    return 0
  | .error fault =>
    IO.eprintln ("Error: " ++ fault.context ++ "\n\nCaused by:\n    " ++ fault.cause.report)
    return 1

end InteropTables

open InteropTables in
/-- Does what the arguments ask for. -/
def main (arguments : List String) : IO UInt32 := do
  match Invocation.ofArguments arguments with
  | .ok invocation => perform invocation
  | .error e =>
    if e.isRequest then
      IO.print e.message
      return 0
    else
      IO.eprint e.message
      return 2
