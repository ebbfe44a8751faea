import InteropTables.CommandLine.Arguments
import InteropTables.CommandLine.Inputs
import InteropTables.Generation
import InteropTables.Text.Columns
import InteropTables.Text.Json

/-!
# The two commands

One command writes the generated text, the other lists what is found. Both tell the user what they
did, in words or as JSON.

* `CommandFault`: a failure, and what was being done;
* `Outcome`: the result of a command, what it prints, and the files afterwards;
* `runGenerate`, `runScan`: the commands;
* `Invocation.run`: the command that was asked for.
-/

namespace InteropTables

/-- A failure, and what was being done when it happened. -/
structure CommandFault where
  context : String
  cause : Fault
deriving DecidableEq, Repr

/-- What a command leaves behind. -/
structure Outcome where
  result : Except CommandFault Unit
  /-- What is printed. -/
  printed : String
  /-- The files afterwards. -/
  files : Workspace
  events : List Event

namespace Outcome

/-- A command that failed: it prints nothing and changes no file. -/
def failed (files : Workspace) (context : String) (cause : Fault) (events : List Event) : Outcome :=
  ⟨.error ⟨context, cause⟩, "", files, events⟩

end Outcome

/-- The inputs of a command, expanded, for a command to go on with. -/
def withInputs (files : Workspace) (inputs : List String) (go : List String → Outcome) : Outcome :=
  match expandInputs files inputs with
  | .ok paths => go paths
  | .error folder => .failed files ("failed to read directory: " ++ folder) .fileAccess []

/-! ## 1. Writing the generated text -/

/-- What is printed after the text was written. -/
def generateSummary (json : Bool) (modules : List String) (output : String) (scanned : Nat) :
    String :=
  if json then
    (Json.object [("output", .text output), ("assemblies", .number scanned),
      ("modules", .list (modules.map .text))]).pretty ++ "\n"
  else
    "Wrote " ++ output ++ " (" ++ toString scanned ++ " modules scanned, " ++
      toString modules.length ++ " native modules)\n"

/-- The command that writes the generated text. -/
def runGenerate (files : Workspace) (json : Bool) (modules : List String) (output : String)
    (inputs : List String) : Outcome :=
  withInputs files inputs fun paths =>
    let generation : Generation :=
      { modules := .ofList modules, assemblies := paths, output := some output }
    let written := generation.write files
    match written.result with
    | .ok after =>
      ⟨.ok (), generateSummary json modules output paths.length, after, written.events⟩
    | .error e => .failed files ("failed to generate " ++ output) e written.events

/-! ## 2. Listing what is found -/

/-- The native calls as data. -/
def callsJson (calls : List NativeCall) : Json :=
  .list (calls.map fun c => .object [
    ("token", .text c.method.token.display), ("assembly", .text c.method.identity),
    ("method", .text c.method.display), ("module", .text c.nativeModule),
    ("entry_point", .text c.entryPoint)])

/-- The callbacks as data. -/
def callbacksJson (callbacks : List Callback) : Json :=
  .list (callbacks.map fun c => .object [
    ("token", .text c.method.token.display), ("assembly", .text c.method.identity),
    ("method", .text c.method.display), ("marker", .text c.marker.name)])

/-- The native calls as a listing. -/
def callsListing (calls : List NativeCall) : Listing where
  headings := ["Token", "Assembly", "Module", "Entry point", "Method"]
  rows := calls.map fun c =>
    [c.method.token.display, c.method.identity, c.nativeModule, c.entryPoint, c.method.display]

/-- The callbacks as a listing. -/
def callbacksListing (callbacks : List Callback) : Listing where
  headings := ["Token", "Assembly", "Marker", "Method"]
  rows := callbacks.map fun c =>
    [c.method.token.display, c.method.identity, c.marker.name, c.method.display]

/-- A listing under its title, or the title alone when there is nothing to list. -/
def titledLines (title : String) (listing : Listing) : List String :=
  if listing.rows.isEmpty then [title ++ ": none"]
  else (title ++ " (" ++ toString listing.rows.length ++ " entries):") :: listing.lines

/-- What is printed about the findings. -/
def findingsText (json : Bool) (found : Findings) : String :=
  if json then
    (Json.object [("native_calls", callsJson found.calls),
      ("callbacks", callbacksJson found.callbacks)]).pretty ++ "\n"
  else
    unlines (titledLines "P/Invokes" (callsListing found.calls) ++ [""] ++
      titledLines "Callbacks" (callbacksListing found.callbacks))

/-- The command that lists what is found. -/
def runScan (files : Workspace) (json : Bool) (inputs : List String) : Outcome :=
  withInputs files inputs fun paths =>
    let scanned := scanFiles files paths
    match scanned.result with
    | .ok found => ⟨.ok (), findingsText json found, files, scanned.events⟩
    | .error e => .failed files "failed to scan assemblies" e scanned.events

/-! ## 3. The command that was asked for -/

/-- The outcome of an invocation. -/
def Invocation.run (i : Invocation) (files : Workspace) : Outcome :=
  match i.command with
  | .generate modules output inputs => runGenerate files i.json modules output inputs
  | .scan inputs => runScan files i.json inputs

end InteropTables
