/-!
# Arguments

The arguments of the program name a command, its options and its operands. Options are written in
a long form, `--name` or `--name=value`, or in a short form, `-n`, where several may share one dash
and a value may follow at once or behind an equals sign. Everything behind `--` is an operand.

* `OptionName`, `Place`: the options, and where each may stand;
* `Command`, `Invocation`: what the arguments ask for;
* `UsageError`: why they ask for nothing that can be done;
* `Parsing`: the state between two arguments: what is settled, and the one thing that is not yet;
* `Invocation.ofArguments`: the meaning of all arguments.

An option with a value, and a run of operands, is settled only when the next one begins or the
arguments end. Its faults show then and not earlier, so a later argument that is no option at all is
found first.
-/

namespace InteropTables

/-! ## 1. Options and commands -/

/-- The options. -/
inductive OptionName where
  | json
  | verbose
  | module
  | output
  | help
  | version
deriving DecidableEq, Repr

namespace OptionName

/-- The name in the long form. -/
def long : OptionName → String
  | json => "json"
  | verbose => "verbose"
  | module => "module"
  | output => "output"
  | help => "help"
  | version => "version"

/-- The letter in the short form. -/
def short? : OptionName → Option Char
  | json => none
  | verbose => some 'v'
  | module => some 'm'
  | output => some 'o'
  | help => some 'h'
  | version => some 'V'

/-- The option is followed by a value. -/
def takesValue : OptionName → Bool
  | module => true
  | output => true
  | _ => false

end OptionName

/-- The places where arguments stand: in front of the command, or behind one of the two. -/
inductive Place where
  | program
  | generate
  | scan
deriving DecidableEq, Repr

/-- The options that may stand at a place. -/
def Place.options : Place → List OptionName
  | program => [.json, .verbose, .help, .version]
  | generate => [.module, .output, .json, .verbose, .help]
  | scan => [.json, .verbose, .help]

/-- What the program is told to do. -/
inductive Command where
  /-- Scan modules and write the generated text. -/
  | generate (modules : List String) (output : String) (inputs : List String)
  /-- List what is found in modules. -/
  | scan (inputs : List String)
deriving DecidableEq, Repr

/-- A command with the options that belong to no command. -/
structure Invocation where
  json : Bool
  verbose : Bool
  command : Command
deriving DecidableEq, Repr

/-- Why arguments cannot be followed. Asking for help or for the version is no fault, but no command
either. -/
inductive UsageError where
  | displayHelp
  | displayVersion
  | nothingGiven
  | missingCommand
  | unknownCommand
  | unknownArgument
  | invalidValue
  | tooManyValues
  | missingArgument
  | repeatedArgument
deriving DecidableEq, Repr

/-! ## 2. Between two arguments -/

/-- What has been settled. -/
structure Gathered where
  json : Bool := false
  verbose : Bool := false
  modules : List String := []
  output : Option String := none
  inputs : List String := []
deriving DecidableEq, Repr

/-- What has not been settled yet. -/
inductive Pending where
  /-- Nothing. -/
  | nothing
  /-- An option that takes a value, before or behind its value. -/
  | option (name : OptionName) (value : Option String)
  /-- Operands in a row. -/
  | operands (values : List String)
deriving DecidableEq, Repr

/-- The state between two arguments. -/
structure Parsing where
  place : Place
  gathered : Gathered := {}
  pending : Pending := .nothing
deriving DecidableEq, Repr

/-- What is gathered after an option got its value. Paths must not be empty, and the output can be
given only once. -/
def Gathered.setValue (g : Gathered) (name : OptionName) (value : String) :
    Except UsageError Gathered :=
  match name with
  | .module => .ok { g with modules := g.modules ++ [value] }
  | .output =>
    if g.output.isSome then .error .repeatedArgument
    else if value.isEmpty then .error .invalidValue
    else .ok { g with output := some value }
  | _ => .ok g

/-- What is gathered after a plain option. Each of them can be given once at one place. -/
def Gathered.setFlag (g : Gathered) (name : OptionName) : Except UsageError Gathered :=
  match name with
  | .json => if g.json then .error .repeatedArgument else .ok { g with json := true }
  | .verbose => if g.verbose then .error .repeatedArgument else .ok { g with verbose := true }
  | .help => .error .displayHelp
  | .version => .error .displayVersion
  | _ => .ok g

namespace Parsing

/-- The state with nothing left to settle. -/
def settle (p : Parsing) : Except UsageError Parsing := do
  let gathered ← match p.pending with
    | .nothing => .ok p.gathered
    | .option _ none => .error .invalidValue
    | .option name (some value) => p.gathered.setValue name value
    | .operands values =>
      if values.any String.isEmpty then .error .invalidValue
      else .ok { p.gathered with inputs := p.gathered.inputs ++ values }
  return { p with gathered, pending := .nothing }

/-! ## 3. One argument -/

/-- An operand. In front of the command there is none, so it must be meant for a command. -/
def operand (p : Parsing) (value : String) : Except UsageError Parsing :=
  if p.place = .program then .error .unknownCommand
  else
    match p.pending with
    | .operands values => .ok { p with pending := .operands (values ++ [value]) }
    | _ => do return { ← p.settle with pending := .operands [value] }

/-- A plain option. -/
def flag (p : Parsing) (name : OptionName) : Except UsageError Parsing := do
  let p ← p.settle
  return { p with gathered := ← p.gathered.setFlag name }

/-- An option that takes a value, which may be attached to it. -/
def valueOption (p : Parsing) (name : OptionName) (attached : Option String) :
    Except UsageError Parsing := do
  let p ← p.settle
  match attached with
  | some value => settle { p with pending := .option name (some value) }
  | none => return { p with pending := .option name none }

/-- A long form, without its dashes. -/
def longForm (p : Parsing) (text : List Char) : Except UsageError Parsing :=
  let name := String.ofList (text.takeWhile (· != '='))
  let attached :=
    match text.dropWhile (· != '=') with
    | [] => none
    | _ :: value => some (String.ofList value)
  match p.place.options.find? fun o => o.long == name with
  | none => .error .unknownArgument
  | some o =>
    if o.takesValue then p.valueOption o attached
    else if attached.isSome then .error .tooManyValues
    else p.flag o

/-- Short forms behind one dash. -/
def shortForms (p : Parsing) : List Char → Except UsageError Parsing
  | [] => .ok p
  | c :: rest =>
    match p.place.options.find? fun o => o.short? == some c with
    | none => .error .unknownArgument
    | some o =>
      if o.takesValue then
        p.valueOption o <|
          match rest with
          | [] => none
          | '=' :: value => some (String.ofList value)
          | value => some (String.ofList value)
      else
        match p.flag o with
        | .ok p => p.shortForms rest
        | .error e => .error e

/-- An argument in front of `--`. A dash alone is no option. -/
def argument (p : Parsing) (text : String) : Except UsageError Parsing :=
  match text.toList with
  | '-' :: '-' :: form => p.longForm form
  | '-' :: c :: form => p.shortForms (c :: form)
  | _ =>
    match p.pending with
    | .option name none => .ok { p with pending := .option name (some text) }
    | _ => p.operand text

/-! ## 4. All arguments -/

/-- The mark behind which everything is an operand. -/
def operandsOnly : String := "--"

/-- The arguments behind a command. -/
def arguments (p : Parsing) : List String → Except UsageError Parsing
  | [] => p.settle
  | text :: rest =>
    if text = operandsOnly then do (← rest.foldlM operand p).settle
    else do (← p.argument text).arguments rest

end Parsing

/-- The commands by name; the last one shows help. -/
def commandNames : List String := ["generate", "scan", "help"]

/-- The meaning of the arguments behind a command, with what was given in front of it. -/
def Invocation.ofCommand (front : Gathered) (place : Place) (rest : List String) :
    Except UsageError Invocation := do
  let g := (← Parsing.arguments { place } rest).gathered
  if g.inputs.isEmpty then
    throw .missingArgument
  let command ← match place, g.output with
    | .scan, _ => pure (.scan g.inputs)
    | _, none => throw .missingArgument
    | _, some output =>
      if g.modules.isEmpty then throw .missingArgument
      else pure (.generate g.modules output g.inputs)
  return { json := front.json || g.json, verbose := front.verbose || g.verbose, command }

/-- The meaning of the arguments behind `help`, which name at most one command. -/
def helpFor (names : List String) : UsageError :=
  match names with
  | [] => .displayHelp
  | [name] => if name ∈ commandNames then .displayHelp else .unknownCommand
  | _ => .unknownCommand

/-- What is wrong when the arguments end in front of a command. -/
def withoutCommand (g : Gathered) : UsageError :=
  if g.json || g.verbose then .missingCommand else .nothingGiven

/-- The meaning of the arguments from a state in front of the command on. -/
def Invocation.ofProgram (p : Parsing) : List String → Except UsageError Invocation
  | [] => .error (withoutCommand p.gathered)
  | text :: rest =>
    if text = "generate" then Invocation.ofCommand p.gathered .generate rest
    else if text = "scan" then Invocation.ofCommand p.gathered .scan rest
    else if text = "help" then .error (helpFor rest)
    else if text = Parsing.operandsOnly then
      match rest with
      | [] => .error (withoutCommand p.gathered)
      | name :: _ => .error (if name ∈ commandNames then .unknownArgument else .unknownCommand)
    else
      match p.argument text with
      | .ok p => Invocation.ofProgram p rest
      | .error e => .error e

/-- The meaning of all arguments. -/
def Invocation.ofArguments (arguments : List String) : Except UsageError Invocation :=
  Invocation.ofProgram { place := .program } arguments

end InteropTables
