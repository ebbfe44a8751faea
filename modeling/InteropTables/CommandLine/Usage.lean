import InteropTables.CommandLine.Arguments

/-!
# What a user is told about the arguments

* `usageLines`: how the program is called;
* `UsageError.isRequest`: the user asked for help or for the version, which is no mistake;
* `UsageError.message`: what is shown in place of a command's work.
-/

namespace InteropTables

/-- The version of the program. -/
def versionText : String := "0.1.0"

/-- How the program is called. -/
def usageLines : List String :=
  ["Usage: interop-tables [--json] [-v] generate -m MODULE... -o FILE MANAGED-MODULE...",
    "       interop-tables [--json] [-v] scan MANAGED-MODULE...",
    "",
    "generate  Scan modules and write import tables and trampolines to a C source file.",
    "scan      List the native calls and callbacks found in modules.",
    "",
    "  -m, --module MODULE  Native module to make an import table for; the order is kept.",
    "  -o, --output FILE    Path of the generated file.",
    "      --json           Print the result as JSON.",
    "  -v, --verbose        Report every step."]

namespace UsageError

/-- The user asked for what is shown. -/
def isRequest (e : UsageError) : Bool :=
  e == .displayHelp || e == .displayVersion

/-- What is wrong with the arguments, in a few words. -/
def reason? : UsageError → Option String
  | displayHelp => none
  | displayVersion => none
  | nothingGiven => none
  | missingCommand => some "a command is missing"
  | unknownCommand => some "there is no such command"
  | unknownArgument => some "an argument is not known"
  | invalidValue => some "an option or operand has no valid value"
  | tooManyValues => some "an option takes no value"
  | missingArgument => some "a required argument is missing"
  | repeatedArgument => some "an argument is given twice"

/-- What is shown when the arguments ask for nothing that can be done. -/
def message (e : UsageError) : String :=
  if e = displayVersion then "interop-tables " ++ versionText ++ "\n"
  else
    let reason := e.reason?.toList.flatMap fun text => ["error: " ++ text, ""]
    "\n".intercalate (reason ++ usageLines) ++ "\n"

end UsageError

end InteropTables
