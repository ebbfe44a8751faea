/-!
# The native modules of a run

A run is asked for import tables of certain native modules. Their order is kept, and asking twice
for one module changes nothing.

* `NativeModules`: names in the order of their first mention, without repetition;
* `NativeModules.insert`, `NativeModules.extend`, `NativeModules.ofList`;
* `NativeModules.sameAs`: two sets with the same names, in whatever order.
-/

namespace InteropTables

/-- An ordered set of names. -/
structure NativeModules where
  names : List String
  nodup : names.Nodup

namespace NativeModules

/-- The empty set. -/
def empty : NativeModules :=
  ⟨[], List.nodup_nil⟩

/-- Whether a name is in the set. -/
def contains (s : NativeModules) (name : String) : Bool :=
  decide (name ∈ s.names)

/-- The set with one more name at its end, unless the name is there already. -/
def insert (s : NativeModules) (name : String) : NativeModules :=
  if h : name ∈ s.names then s
  else
    { names := s.names ++ [name]
      nodup := by
        simp only [List.nodup_append, s.nodup, List.nodup_cons, List.not_mem_nil,
          not_false_eq_true, List.nodup_nil, and_self, true_and, List.mem_singleton]
        rintro a ha b rfl hab
        exact h (hab ▸ ha) }

/-- The set with more names, one after the other. -/
def extend (s : NativeModules) (names : List String) : NativeModules :=
  names.foldl insert s

/-- The set of the names in a list. -/
def ofList (names : List String) : NativeModules :=
  empty.extend names

/-- The number of names. -/
def size (s : NativeModules) : Nat :=
  s.names.length

/-- Whether two sets hold the same names. -/
def sameAs (s t : NativeModules) : Bool :=
  s.names.all t.contains && t.names.all s.contains

end NativeModules

end InteropTables
