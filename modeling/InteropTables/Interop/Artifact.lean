import InteropTables.Interop.Trampolines

/-!
# The generated text

The text is made of the import tables and the trampolines of all findings together.

* `Artifact.render`: the text, or the failure of a callback, with the callbacks as they are left and
  the report.
-/

namespace InteropTables

/-- The outcome of making the text. -/
structure Artifact where
  text : Except Fault String
  /-- The callbacks afterwards, in order and named if the text was made. -/
  callbacks : List Callback
  events : List Event

/-- The text for given findings and native modules. -/
def Artifact.render (found : Findings) (modules : NativeModules) : Artifact :=
  match emitTrampolines found.callbacks with
  | (.ok trampolines, callbacks) =>
    { text := .ok (declarationsText found.calls modules ++ trampolines)
      callbacks
      events := [.rendered found.calls.length modules.size callbacks.length] }
  | (.error e, callbacks) => { text := .error e, callbacks, events := [] }

end InteropTables
