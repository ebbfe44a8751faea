import InteropTables.Assembly.Basic
import InteropTables.Metadata.Table

/-!
# Which type lists which methods

Every type row says where its methods begin; they end where those of the next type begin, and those
of the last type at the end of the list. The list is the table of methods itself, or a table of
indirections if the module has one.

* `methodRun`: the places in the list that belong to a type;
* `methodRuns`: the same for all types;
* `MethodList`: the list, direct or indirect;
* `methodLists`: the methods of every type, if all of them exist;
* `declaringTypes`: for every method the last type that lists it.
-/

namespace InteropTables

/-! ## 1. Runs -/

/-- The places from `start` up to `stop`, cut to a list of `length` places that count from one. A
run that starts nowhere in the list, or does not end behind its start, is empty. -/
def methodRun (length start stop : Nat) : List Nat :=
  if start = 0 ∨ length < start ∨ stop ≤ start then []
  else List.range' start (min stop (length + 1) - start)

/-- The runs of all types, given where they start. -/
def methodRuns (length : Nat) (starts : List Nat) : List (List Nat) :=
  starts.zipWith (methodRun length) (starts.drop 1 ++ [length + 1])

/-- Every place of a run lies in the list. -/
theorem mem_methodRun {length start stop i : Nat} :
    i ∈ methodRun length start stop ↔ start ≠ 0 ∧ start ≤ i ∧ i < stop ∧ i ≤ length := by
  unfold methodRun
  split
  · simp only [List.not_mem_nil, false_iff]
    omega
  · simp only [List.mem_range'_1]
    omega

/-! ## 2. Lists -/

/-- The list that types cut their methods from. -/
inductive MethodList where
  /-- Place `i` is method row `i`. -/
  | direct (length : Nat)
  /-- Place `i` names a method row. -/
  | indirect (table : Table MethodPtrRow)

namespace MethodList

/-- The number of places. -/
def length : MethodList → Nat
  | direct n => n
  | indirect t => t.rowCount

/-- The method row that a place names. -/
def methodAt : MethodList → Nat → Except Fault Nat
  | direct _, i => .ok i
  | indirect t, i => (t.get i).map (·.method)

end MethodList

/-- The index of the method at a place, for a type given by its row number. -/
def listedMethod (list : MethodList) (methodCount typeNumber place : Nat) : Except Fault Nat := do
  let row ← list.methodAt place
  if 1 ≤ row ∧ row ≤ methodCount then
    return row - 1
  else
    throw (.malformed (.listedMethod typeNumber row))

/-- The indices of the methods of every type, given where their runs start. -/
def methodLists (list : MethodList) (methodCount : Nat) (starts : List Nat) :
    Except Fault (List (List Nat)) :=
  (methodRuns list.length starts).zipIdx.mapM fun (run, i) =>
    run.mapM (listedMethod list methodCount (i + 1))

/-- For every method the index of the type that lists it, the last one if there are several. -/
def declaringTypes (methodCount : Nat) (lists : List (List Nat)) : Array (Option Nat) :=
  lists.zipIdx.foldl (fun declaring (list, i) =>
    list.foldl (fun declaring m => declaring.setIfInBounds m (some i)) declaring)
    (Array.replicate methodCount none)

end InteropTables
