import InteropTables.Interop.ImportTables

/-!
# Trampolines

The second half of the generated text: for every callback a native function that passes the places
of its arguments on to the interpreter. The interpreter takes one slot for each value: the result
if there is one, every parameter, and an argument of its own.

* `checkCallbacks`: all callbacks have types that can pass the boundary;
* `Callback.compare`, `sortCallbacks`: the order in which trampolines are numbered;
* `nameCallbacks`: every callback gets a name, and no two the same;
* `Trampoline`: a function in terms of native types; `Trampoline.lines` writes it;
* `emitTrampolines`: the whole second half, and the callbacks in the order of their numbers.
-/

namespace InteropTables

/-! ## 1. Types that can pass -/

/-- The first element, with its position, that does not have a property. -/
def firstOffending {α : Type} (ok : α → Bool) (elements : List α) : Option (Nat × α) :=
  (elements.zipIdx.find? fun (a, _) => !ok a).map fun (a, i) => (i, a)

/-- A callback passes if its result is nothing or blittable and all its parameters are blittable.
The result is looked at first. -/
def Callback.check (c : Callback) : Except Fault Unit :=
  let m := c.method
  if !m.result.isVoid && !m.result.isBlittable then
    .error (.nonBlittableReturn m.display m.result.full)
  else
    match firstOffending TypeDescriptor.isBlittable m.parameters with
    | some (i, t) => .error (.nonBlittableParameter m.display i t.full)
    | none => .ok ()

/-- All callbacks pass; the first that does not decides the failure. -/
def checkCallbacks (callbacks : List Callback) : Except Fault Unit :=
  callbacks.forM Callback.check

/-! ## 2. Order and names -/

/-- The order of callbacks: by module, type, method name and token. -/
def Callback.compare (a b : Callback) : Ordering :=
  compareLex (compareOn fun c => c.method.identity)
    (compareLex (compareOn fun c => c.method.declaring.name)
      (compareLex (compareOn fun c => c.method.name)
        (compareOn fun c => c.method.token.value.toNat))) a b

/-- The callbacks in their order. -/
def sortCallbacks (callbacks : List Callback) : List Callback :=
  callbacks.mergeSort fun a b => (a.compare b).isLE

/-- The name under which the interpreter looks a callback up. -/
def Callback.lookupName (c : Callback) : String :=
  identifierOf c.method.identity ++ "_" ++ identifierOf c.method.declaring.name ++ "_" ++
    identifierOf c.method.name

/-- The front part of all names of trampolines. -/
def trampolinePrefixText : String := "wasm_native_to_interp_"

/-- The name of the trampoline of a callback. -/
def Callback.trampolineName (c : Callback) : String :=
  trampolinePrefixText ++ c.lookupName

/-- The callbacks with their names, behind those in `named` (last one first). At the first name that
already occurred naming stops, and the callbacks from there on are left as they are. -/
def nameOnto (named : List Callback) : List Callback → Except Fault Unit × List Callback
  | [] => (.ok (), named.reverse)
  | c :: rest =>
    let name := c.trampolineName
    if named.any fun other => other.trampoline == some name then
      (.error (.duplicateTrampoline name), named.reverse ++ c :: rest)
    else nameOnto ({ c with trampoline := some name } :: named) rest

/-- The callbacks in their order and with their names; at a name that occurs twice a failure, and
the callbacks as far as they were named. -/
def nameCallbacks (callbacks : List Callback) : Except Fault Unit × List Callback :=
  nameOnto [] (sortCallbacks callbacks)

/-! ## 3. Trampolines -/

/-- A function in front of a callback. -/
structure Trampoline where
  /-- The number of the callback. -/
  index : Nat
  name : String
  result : CType
  parameters : List CType
deriving DecidableEq, Repr

namespace Trampoline

/-- The function for a callback with a given number. -/
def ofCallback (index : Nat) (c : Callback) : Trampoline :=
  { index
    name := c.trampoline.getD ""
    result := CType.ofType c.method.result
    parameters := c.method.parameters.map CType.ofType }

/-- The function returns something. -/
def returns (t : Trampoline) : Bool :=
  !t.result.isVoid

/-- The number of values that are passed to the interpreter. -/
def slots (t : Trampoline) : Nat :=
  (if t.returns then 1 else 0) + t.parameters.length + 1

/-- The name of the type of the interpreter's function. -/
def signatureName (t : Trampoline) : String :=
  "WasmInterpEntrySig_" ++ toString t.index

/-- The descriptor that leads to the interpreter's function. -/
def descriptor (t : Trampoline) : String :=
  "wasm_native_to_interp_ftndescs [" ++ toString t.index ++ "]"

/-- The parameters of the function. -/
def parameterList (t : Trampoline) : List String :=
  t.parameters.zipIdx.map fun (type, i) => type.spelling ++ " arg" ++ toString i

/-- What is passed to the interpreter. -/
def arguments (t : Trampoline) : List String :=
  (if t.returns then ["&res"] else []) ++
    (List.range t.parameters.length).map (fun i => "&arg" ++ toString i) ++
    [t.descriptor ++ ".arg"]

/-- There is one argument for each slot. -/
theorem length_arguments (t : Trampoline) : t.arguments.length = t.slots := by
  unfold arguments slots
  split
  · simp
    omega
  · simp

/-- The lines of the function. -/
def lines (t : Trampoline) : List String :=
  [t.result.spelling ++ " " ++ t.name ++ " (" ++ ",".intercalate t.parameterList ++ ") \x7b",
    "typedef void (*" ++ t.signatureName ++ ") (" ++
      ",".intercalate (List.replicate t.slots "int*") ++ ");"] ++
  (if t.returns then [t.result.spelling ++ " res;"] else []) ++
  ["((" ++ t.signatureName ++ ")" ++ t.descriptor ++ ".func) (" ++
    ", ".intercalate t.arguments ++ ");"] ++
  (if t.returns then ["return res;"] else []) ++
  ["\x7d"]

end Trampoline

/-! ## 4. The text -/

/-- The functions for callbacks in the order of their numbers. -/
def trampolines (callbacks : List Callback) : List Trampoline :=
  callbacks.zipIdx.map fun (c, i) => Trampoline.ofCallback i c

/-- The text for callbacks that are in order and have their names. -/
def trampolinesText (callbacks : List Callback) : String :=
  let functions := trampolines callbacks
  unlines (
    ["InterpFtnDesc wasm_native_to_interp_ftndescs[" ++ toString callbacks.length ++ "];"] ++
    functions.flatMap Trampoline.lines ++
    [arrayLine "static void *wasm_native_to_interp_funcs[]" (functions.map (·.name ++ ",")),
      arrayLine "static const char *wasm_native_to_interp_map[]"
        (callbacks.map fun c => "\"" ++ c.lookupName ++ "\",\n")])

/-- The trampolines of all callbacks. Beside the text, or the failure, stand the callbacks as they
are left: untouched when one of them has a type that cannot pass, in order otherwise. -/
def emitTrampolines (callbacks : List Callback) : Except Fault String × List Callback :=
  match checkCallbacks callbacks with
  | .error e => (.error e, callbacks)
  | .ok () =>
    match nameCallbacks callbacks with
    | (.ok (), named) => (.ok (trampolinesText named), named)
    | (.error e, named) => (.error e, named)

end InteropTables
