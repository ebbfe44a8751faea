import InteropTables.Proofs.CText.Lexemes

/-!
# Trampolines as they are written

A reading of the text of trampolines that takes nothing for granted but its lines: every number in
it and every name is read where it stands.

* `FunctionText`, `TrampolineText`: what a text says of one trampoline, and of all;
* `TrampolineText.function?`: a trampoline, line by line;
* `TrampolineText.read`: **a text as trampolines and the arrays around them**;
* `between?_append`, `separated_intercalate`, `elements?_flatMap`: lists are read as they are
  written.
-/

namespace InteropTables

open CText

/-! ## 1. What the text says -/

/-- What a trampoline passes to the interpreter. -/
inductive Passed where
  /-- The place of a variable. -/
  | place (name : String)
  /-- The argument in the descriptor with a number. -/
  | auxiliary (descriptor : Nat)
deriving DecidableEq, Repr

/-- A trampoline as it is written. -/
structure FunctionText where
  result : String
  name : String
  /-- Type and name of every parameter. -/
  parameters : List (String × String)
  /-- The number in the name of the type of the interpreter's function. -/
  typedefIndex : Nat
  /-- The number of places that this type takes. -/
  slots : Nat
  /-- The type of the variable for the result, if there is one. -/
  declared : Option String
  /-- The number in the name of the type to which the function is cast. -/
  castIndex : Nat
  /-- The number of the descriptor that holds the function. -/
  calleeIndex : Nat
  arguments : List Passed
  /-- The variable for the result is returned. -/
  returned : Bool
deriving DecidableEq, Repr

/-- The trampolines as they are written, with the arrays around them. -/
structure TrampolineText where
  size : Nat
  functions : List FunctionText
  funcs : List String
  map : List String
deriving DecidableEq, Repr

/-! ## 2. Reading -/

namespace TrampolineText

/-- What stands between a front and an end. -/
def between? (front behind line : List Lexeme) : Option (List Lexeme) :=
  (line.dropPrefix? front).bind fun rest => rest.dropSuffix? behind

/-- The elements of a list with commas between them. -/
def separated (list : List Lexeme) : List (List Lexeme) :=
  if list = [] then [] else list.splitOn (.mark ',')

/-- The elements of a list with a comma behind each. -/
def elements? (element : Lexeme → Option String) : List Lexeme → Option (List String)
  | [] => some []
  | lexeme :: .mark ',' :: rest => do
    let first ← element lexeme
    let others ← elements? element rest
    some (first :: others)
  | _ => none

def word? : Lexeme → Option String
  | .word text => some text
  | _ => none

def literal? : Lexeme → Option String
  | .literal text => some text
  | _ => none

/-- The number in the name of the type of an interpreter's function. -/
def signatureIndex? (name : String) : Option Nat :=
  (name.toList.dropPrefix? "WasmInterpEntrySig_".toList).bind fun digits =>
    number? (String.ofList digits)

/-- The number of a descriptor, and what is taken of it. -/
def descriptor? : List Lexeme → Option (Nat × List Lexeme)
  | .word array :: .mark '[' :: .word number :: .mark ']' :: .mark '.' :: rest =>
    if array = "wasm_native_to_interp_ftndescs" then (number? number).map (·, rest) else none
  | _ => none

def parameter? : List Lexeme → Option (String × String)
  | [.word type, .word name] => some (type, name)
  | _ => none

def passed? : List Lexeme → Option Passed
  | [.mark '&', .word name] => some (.place name)
  | argument => do
    let (number, rest) ← descriptor? argument
    if rest = [.word "arg"] then some (.auxiliary number) else none

/-- The line with result, name and parameters. -/
def head? : List Lexeme → Option (String × String × List (String × String))
  | .word result :: .word name :: rest => do
    let list ← between? [.mark '('] [.mark ')', .mark '\x7b'] rest
    let parameters ← (separated list).mapM parameter?
    some (result, name, parameters)
  | _ => none

/-- The line with the type of the interpreter's function: its number, and the places that it
takes. -/
def typedef? (line : List Lexeme) : Option (Nat × Nat) := do
  let rest ← between? [.word "typedef", .word "void", .mark '(', .mark '*']
    [.mark ')', .mark ';'] line
  match rest with
  | .word name :: .mark ')' :: .mark '(' :: places =>
    let number ← signatureIndex? name
    if (separated places).all (· == [.word "int", .mark '*']) then
      some (number, (separated places).length)
    else none
  | _ => none

/-- The line with the variable for the result. -/
def declared? : List Lexeme → Option String
  | [.word type, .word name, .mark ';'] => if name = "res" then some type else none
  | _ => none

/-- The line with the call of the interpreter's function. -/
def call? (line : List Lexeme) : Option (Nat × Nat × List Passed) := do
  let rest ← between? [.mark '(', .mark '('] [.mark ')', .mark ';'] line
  match rest with
  | .word name :: .mark ')' :: rest =>
    let cast ← signatureIndex? name
    let (callee, rest) ← descriptor? rest
    let list ← rest.dropPrefix? [.word "func", .mark ')', .mark '(']
    let arguments ← (separated list).mapM passed?
    some (cast, callee, arguments)
  | _ => none

/-- The line that returns the result. -/
def returned? (line : List Lexeme) : Option Unit :=
  if line = [.word "return", .word "res", .mark ';'] then some () else none

/-- A line that may be there, and the lines behind it. -/
def optional {α : Type} (read : List Lexeme → Option α) :
    List (List Lexeme) → Option α × List (List Lexeme)
  | [] => (none, [])
  | line :: lines =>
    match read line with
    | some a => (some a, lines)
    | none => (none, line :: lines)

/-- A trampoline, and the lines behind it. -/
def function? : List (List Lexeme) → Option (FunctionText × List (List Lexeme))
  | first :: second :: lines => do
    let (result, name, parameters) ← head? first
    let (typedefIndex, slots) ← typedef? second
    let (declared, lines) := optional declared? lines
    match lines with
    | third :: lines =>
      let (castIndex, calleeIndex, arguments) ← call? third
      let (returned, lines) := optional returned? lines
      match lines with
      | [.mark '\x7d'] :: lines =>
        some ({ result, name, parameters, typedefIndex, slots, declared, castIndex, calleeIndex,
                arguments, returned := returned.isSome }, lines)
      | _ => none
    | [] => none
  | _ => none

/-- Some trampolines, and the lines behind them. -/
def functions? : Nat → List (List Lexeme) → Option (List FunctionText × List (List Lexeme))
  | 0, lines => some ([], lines)
  | n + 1, lines => do
    let (first, lines) ← function? lines
    let (others, lines) ← functions? n lines
    some (first :: others, lines)

/-- The line with the size of the array of descriptors. -/
def size? (line : List Lexeme) : Option Nat := do
  let size ← between? [.word "InterpFtnDesc", .word "wasm_native_to_interp_ftndescs", .mark '[']
    [.mark ']', .mark ';'] line
  match size with
  | [.word number] => number? number
  | _ => none

/-- The array of the trampolines. -/
def funcs? (line : List Lexeme) : Option (List String) := do
  let list ← between? [.word "static", .word "void", .mark '*', .word "wasm_native_to_interp_funcs",
    .mark '[', .mark ']', .mark '=', .mark '\x7b'] [.mark '\x7d', .mark ';'] line
  elements? word? list

/-- The array of the names under which the interpreter looks callbacks up. -/
def map? (lines : List (List Lexeme)) : Option (List String) := do
  let list ← between? [.word "static", .word "const", .word "char", .mark '*',
    .word "wasm_native_to_interp_map", .mark '[', .mark ']', .mark '=', .mark '\x7b']
    [.mark '\x7d', .mark ';'] lines.flatten
  elements? literal? list

/-- A text as trampolines: the size of the array of descriptors, as many trampolines, an array on
one line and an array on all lines behind it. -/
def read (text : String) : Option TrampolineText := do
  match ← readLexemes text with
  | first :: lines =>
    let size ← size? first
    let (functions, lines) ← functions? size lines
    match lines with
    | line :: lines =>
      let funcs ← funcs? line
      let map ← map? lines
      some { size, functions, funcs, map }
    | [] => none
  | [] => none

/-! ## 3. Lists -/

theorem between?_append (front list behind : List Lexeme) :
    between? front behind (front ++ list ++ behind) = some list := by
  rw [between?, List.append_assoc, List.dropPrefix?_append_of_beq _ (beq_self_eq_true front)]
  exact List.dropSuffix?_eq_some_iff.2 ⟨behind, rfl, beq_self_eq_true behind⟩

theorem separated_intercalate {lists : List (List Lexeme)}
    (h : ∀ list ∈ lists, list ≠ [] ∧ .mark ',' ∉ list) :
    separated ([.mark ','].intercalate lists) = lists := by
  cases lists with
  | nil => rfl
  | cons list lists =>
    have hne : [.mark ','].intercalate (list :: lists) ≠ [] := by
      intro hnil
      have hlist := (h list List.mem_cons_self).1
      cases lists with
      | nil =>
        rw [List.intercalate_singleton] at hnil
        exact hlist hnil
      | cons other lists =>
        rw [List.intercalate_cons_cons, List.append_assoc] at hnil
        exact hlist (List.append_eq_nil_iff.1 hnil).1
    rw [separated, if_neg hne]
    exact List.splitOn_intercalate _ (fun list hlist => (h list hlist).2) (List.cons_ne_nil _ _)

theorem mapM_map {α β γ : Type} {read : β → Option γ} {write : α → β} {mean : α → γ} {l : List α}
    (h : ∀ a ∈ l, read (write a) = some (mean a)) :
    (l.map write).mapM read = some (l.map mean) := by
  induction l with
  | nil => rfl
  | cons a l ih =>
    obtain ⟨ha, hl⟩ := List.forall_mem_cons.1 h
    rw [List.map_cons, List.mapM_cons, ha, ih hl]
    rfl

theorem elements?_flatMap {α : Type} {element : Lexeme → Option String} {write : α → Lexeme}
    {mean : α → String} {l : List α} (h : ∀ a ∈ l, element (write a) = some (mean a)) :
    elements? element (l.flatMap fun a => [write a, .mark ',']) = some (l.map mean) := by
  induction l with
  | nil => rfl
  | cons a l ih =>
    obtain ⟨ha, hl⟩ := List.forall_mem_cons.1 h
    rw [List.flatMap_cons, List.map_cons, List.cons_append, List.singleton_append, elements?, ha,
      ih hl]
    rfl

end TrampolineText

end InteropTables
