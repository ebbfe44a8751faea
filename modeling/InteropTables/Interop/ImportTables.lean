import InteropTables.Interop.CType
import InteropTables.Interop.Findings
import InteropTables.Interop.Identifier
import InteropTables.Interop.NativeModules

/-!
# Prototypes and import tables

The first half of the generated text: a prototype for every native function in use, one table for
every native module that maps the names of its functions to the functions, and two arrays over all
tables.

* `NativeCall.prototype`: the prototype of a function;
* `byEntryPoint`: the calls in the order of their function names;
* `prototypes`: the prototypes of the calls into given modules, each once;
* `ImportEntry`, `ImportTable`: a table and its entries, with the modules that use each function;
* `ImportTable.ofCalls`: the table of a native module;
* `declarationsText`: the whole first half.
-/

namespace InteropTables

/-! ## 1. Prototypes -/

/-- The method whose function takes pointers that no spelling of its own types expresses. -/
def enumCalendarInfoName : String := "EnumCalendarInfo"

/-- The prototype of the function of a call. -/
def NativeCall.prototype (call : NativeCall) : String :=
  if call.method.name = enumCalendarInfoName then
    "int " ++ call.entryPoint ++ " (int, int, int, int, int);"
  else
    let parameters := call.method.parameters.map fun t => (CType.ofType t).spelling
    (CType.ofType call.method.result).spelling ++ " " ++ call.entryPoint ++ " (" ++
      ",".intercalate parameters ++ ");"

/-- The calls in the order of their function names; calls of one function keep their order. -/
def byEntryPoint (calls : List NativeCall) : List NativeCall :=
  calls.mergeSort fun a b => (compare a.entryPoint b.entryPoint).isLE

/-- The prototypes of the calls into given modules, each text once, where it first occurs. -/
def prototypes (calls : List NativeCall) (modules : NativeModules) : List String :=
  (((byEntryPoint calls).filter fun call => modules.contains call.nativeModule).map
    NativeCall.prototype).eraseDups

/-! ## 2. Tables -/

/-- A function in an import table. -/
structure ImportEntry where
  entryPoint : String
  /-- The modules that call the function. -/
  sources : List String
deriving DecidableEq, Repr

/-- The import table of a native module. -/
structure ImportTable where
  module : String
  entries : List ImportEntry
deriving DecidableEq, Repr

namespace ImportTable

/-- The table of a native module: its functions by name, each with its callers in the order of
their first call. -/
def ofCalls (calls : List NativeCall) (module : String) : ImportTable :=
  let own := (byEntryPoint calls).filter fun call => call.nativeModule == module
  let entryPoints := (own.map (·.entryPoint)).eraseDups
  { module
    entries := entryPoints.map fun entryPoint =>
      { entryPoint
        sources := ((own.filter fun call => call.entryPoint == entryPoint).map
          (·.method.identity)).eraseDups } }

/-- The name of the table in the generated text. -/
def symbol (module : String) : String :=
  identifierOf module ++ "_imports"

end ImportTable

/-- The line of an entry. -/
def ImportEntry.line (e : ImportEntry) : String :=
  "\x7b\"" ++ e.entryPoint ++ "\", " ++ e.entryPoint ++ "\x7d, // " ++ ", ".intercalate e.sources

/-- The lines of a table. -/
def ImportTable.lines (t : ImportTable) : List String :=
  ["static PinvokeImport " ++ ImportTable.symbol t.module ++ " [] = \x7b"] ++
    t.entries.map ImportEntry.line ++ ["\x7bNULL, NULL\x7d", "\x7d;"]

/-! ## 3. The text -/

/-- Lines as one text, each with a line end behind it. -/
def unlines (lines : List String) : String :=
  String.join (lines.map (· ++ "\n"))

/-- The first line of the generated text. -/
def generatedHeader : String := "// GENERATED FILE, DO NOT MODIFY"

/-- The line that defines an array with given elements, each written with what follows it. -/
def arrayLine (definition : String) (elements : List String) : String :=
  definition ++ " = \x7b " ++ String.join elements ++ "\x7d;"

/-- The array of all tables. -/
def tablesLine (modules : NativeModules) : String :=
  arrayLine "static void *pinvoke_tables[]" (modules.names.map fun m => ImportTable.symbol m ++ ",")

/-- The array of the names of all native modules. -/
def namesLine (modules : NativeModules) : String :=
  arrayLine "static char *pinvoke_names[]" (modules.names.map fun m => "\"" ++ m ++ "\",")

/-- The prototypes and import tables of a list of calls, for given modules. -/
def declarationsText (calls : List NativeCall) (modules : NativeModules) : String :=
  unlines ([generatedHeader, ""] ++ prototypes calls modules ++
    modules.names.flatMap (fun m => (ImportTable.ofCalls calls m).lines) ++
    [tablesLine modules, namesLine modules])

end InteropTables
