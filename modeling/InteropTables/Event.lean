import InteropTables.Fault

/-!
# What a run reports

Beside its result a run reports what it does and what it passes over. A report is a list of events,
each with a level and a line of text.

* `Event`: the events, by cause;
* `Event.level`, `Event.message`, `Event.line`: how an event is shown.
-/

namespace InteropTables

/-- How much an event matters to a user. -/
inductive Level where
  | info
  | debug
deriving DecidableEq, Repr

/-- The word for a level. -/
def Level.word : Level → String
  | info => "INFO"
  | debug => "DEBUG"

/-- An event of a run. -/
inductive Event where
  /-- A module is about to be read. -/
  | collecting (path : String)
  /-- A module was read. -/
  | loaded (identity : String) (types methods : Nat)
  /-- The row of an attribute could not be read. -/
  | unreadableAttribute (cause : Fault)
  /-- An attribute belongs to a method that does not exist. -/
  | strayAttribute (row method : Token)
  /-- An attribute whose type is not known was passed over in the search for a marker. -/
  | skippedAttribute (type method reason : String)
  /-- All modules were scanned. -/
  | found (calls callbacks modules : Nat)
  /-- The text was made. -/
  | rendered (calls modules callbacks : Nat)
  /-- The text is about to be written. -/
  | writing (path : String)
deriving DecidableEq, Repr

namespace Event

/-- The level of an event. -/
def level : Event → Level
  | collecting _ => .info
  | writing _ => .info
  | _ => .debug

/-- The text of an event. -/
def message : Event → String
  | collecting path => "Collecting pinvokes from " ++ path
  | loaded identity types methods =>
    "Loaded " ++ identity ++ ": " ++ toString types ++ " types, " ++ toString methods ++ " methods"
  | unreadableAttribute cause => "Skipping unreadable custom attribute row: " ++ cause.report
  | strayAttribute row method =>
    "Custom attribute " ++ row.display ++ " is applied to a missing method " ++ method.display
  | skippedAttribute type method reason =>
    "Skipping attribute on " ++ type ++ "::" ++ method ++ ": " ++ reason
  | found calls callbacks modules =>
    "Found " ++ toString calls ++ " pinvokes and " ++ toString callbacks ++ " callbacks in " ++
      toString modules ++ " modules"
  | rendered calls modules callbacks =>
    "Rendered " ++ toString calls ++ " pinvokes for " ++ toString modules ++
      " native modules and " ++ toString callbacks ++ " callbacks"
  | writing path => "Generating pinvoke table to '" ++ path ++ "'"

/-- An event in one line. -/
def line (e : Event) : String :=
  e.level.word ++ " " ++ e.message

end Event

end InteropTables
