import InteropTables.Proofs.Assembly.Ownership
import InteropTables.Proofs.Machine.Names
import InteropTables.Proofs.Machine.Rows
import InteropTables.Proofs.Machine.Streams

/-!
# Loading a module on a machine of words

The parts of a module are read one behind the other, as in the library. What later parts rest on is
kept as an invariant: every byte string that the module keeps is shorter than a word of four bytes
can count, and every type lists only methods that exist.

* `readIdentity`, `readReferences`, `readSpecifications`, `readTypes`, `readMethods`: the parts;
* `assignMethods`, `bindImports`, `resolve`, `readUses`: what they know of each other;
* `Loaded`: the invariant of a module that has been loaded;
* `assignMethods_follows`, `bindImports_follows`: **each step follows the library and keeps it**;
* `ofStreams_follows`: **a module is loaded as the library loads it.**
-/

namespace InteropTables

namespace Machine

variable {α β ρ : Type}

/-! ## 1. The parts of a module -/

/-- The rows of a table; none if the module has no such table. -/
def allRows (tables : Tables) (ρ : Type) [TableRow ρ] : Run (List ρ) := do
  match ← tables.table ρ with
  | some table => table.visit Run.of
  | none => return []

/-- The name of the module without its extension. -/
def moduleName (tables : Tables) (strings : StringHeap) : Run String := do
  match ← tables.table ModuleRow with
  | some table => do
    let name ← textAt strings (← table.get 1).name
    return (Path.stem? name).getD name
  | none => .fail (.malformed .noModuleTable)

/-- The name of the assembly, or else that of the module. -/
def readIdentity (tables : Tables) (strings : StringHeap) : Run String := do
  match ← tables.table AssemblyRow with
  | some table =>
    if 0 < table.rowCount then do textAt strings (← table.get 1).name
    else moduleName tables strings
  | none => moduleName tables strings

/-- The names of all type references. -/
def readReferences (tables : Tables) (strings : StringHeap) : Run (Array TypeName) := do
  match ← tables.table TypeRefRow with
  | some table => do
    let rows ← table.collect pure
    let names ← rows.mapM (referenceName rows.toArray strings namingFuel 0)
    return names.toArray
  | none => return #[]

/-- The blobs of all type specifications. -/
def readSpecifications (tables : Tables) (blobs : BlobHeap) : Run (Array ByteArray) := do
  match ← tables.table TypeSpecRow with
  | some table => do
    let found ← table.collect fun row => blobAt blobs row.signature
    return found.toArray
  | none => return #[]

/-- All types, without their methods. -/
def readTypes (tables : Tables) (strings : StringHeap) : Run (Array TypeInfo) := do
  match ← tables.table TypeDefRow with
  | some table => do
    let nested ← allRows tables NestedClassRow
    let rows ← table.collect pure
    let enclosing := enclosingTypes rows.length nested
    let types ← rows.mapM fun row => do
      return {
        token := TableRow.token TypeDefRow row.number
        name := ← definitionName rows.toArray enclosing strings namingFuel 0 row
        flags := row.flags : TypeInfo }
    return types.toArray
  | none => return #[]

/-- The method of a row, without what other tables say about it. -/
def readMethod (strings : StringHeap) (blobs : BlobHeap) (row : MethodDefRow) : Run Method := do
  let name ← textAt strings row.name
  let signature ← blobAt blobs row.signature
  return {
    token := TableRow.token MethodDefRow row.number
    name
    flags := .ofColumn row.flags
    implFlags := row.implFlags
    signature }

/-- All methods, without what other tables say about them. -/
def readMethods (tables : Tables) (strings : StringHeap) (blobs : BlobHeap) :
    Run (Array Method) := do
  match ← tables.table MethodDefRow with
  | some table => do
    let methods ← table.collect (readMethod strings blobs)
    return methods.toArray
  | none => return #[]

section Parts

variable {x : Tables} {s : TableStream} {strings : StringHeap} {blobs : BlobHeap}

theorem allRows_follows (h : x.Shows s) (ρ : Type) [TableRow ρ] :
    Follows Eq (allRows x ρ) (s.allRows ρ) := by
  obtain ⟨found, hfound, hsame⟩ := h.table ρ
  rw [allRows, hfound, Run.pure_then, TableStream.allRows]
  generalize s.table ρ = t? at hsame
  cases hsame with
  | none => exact follows_pure rfl
  | some hrows => exact Rows.visit_follows hrows fun row => follows_of row

theorem moduleName_follows (h : x.Shows s) (strings : StringHeap) :
    Follows Eq (moduleName x strings)
      (match s.table ModuleRow with
      | some table => do
        let name ← strings.get (← table.get 1).name
        return (Path.stem? name).getD name
      | none => .error (.malformed .noModuleTable)) := by
  obtain ⟨found, hfound, hsame⟩ := h.table ModuleRow
  rw [moduleName, hfound, Run.pure_then]
  generalize s.table ModuleRow = t? at hsame
  cases hsame with
  | none => exact follows_fail _
  | some hrows =>
    refine (Rows.get_follows hrows 1).bind_eq fun row _ => ?_
    exact (textAt_follows strings row.name).bind_eq fun name _ => follows_pure rfl

/-- A table that is found has rows, so the look at their number decides nothing. -/
theorem readIdentity_follows (h : x.Shows s) (strings : StringHeap) :
    Follows Eq (readIdentity x strings) (InteropTables.readIdentity s strings) := by
  obtain ⟨found, hfound, hsame⟩ := h.table AssemblyRow
  rw [readIdentity, hfound, Run.pure_then, InteropTables.readIdentity]
  generalize s.table AssemblyRow = t? at hsame
  cases hsame with
  | none => exact moduleName_follows h strings
  | some hrows =>
    have hpos := hrows.nonempty
    rw [← hrows.rowCount] at hpos
    dsimp only
    rw [if_pos hpos]
    exact (Rows.get_follows hrows 1).bind_eq fun row _ => textAt_follows strings row.name

theorem readReferences_follows (h : x.Shows s) (strings : StringHeap) :
    Follows Eq (readReferences x strings) (InteropTables.readReferences s strings) := by
  obtain ⟨found, hfound, hsame⟩ := h.table TypeRefRow
  rw [readReferences, hfound, Run.pure_then, InteropTables.readReferences, TableStream.allRows]
  generalize s.table TypeRefRow = t? at hsame
  cases hsame with
  | none => exact follows_pure rfl
  | some hrows =>
    refine (Rows.collect_rows_follows hrows).bind_eq fun rows _ => ?_
    refine (Follows.mapM fun row _ =>
      referenceName_follows rows.toArray (Nat.zero_add namingLimit) row).bind_eq fun names _ => ?_
    exact follows_pure rfl

theorem readSpecifications_follows (h : x.Shows s) (hblobs : blobs.data.size < wordCount 4) :
    Follows Eq (readSpecifications x blobs) (InteropTables.readSpecifications s blobs) := by
  obtain ⟨found, hfound, hsame⟩ := h.table TypeSpecRow
  rw [readSpecifications, hfound, Run.pure_then, InteropTables.readSpecifications]
  generalize s.table TypeSpecRow = t? at hsame
  cases hsame with
  | none => exact follows_pure rfl
  | some hrows =>
    refine (Rows.collect_follows hrows fun row => blobAt_follows hblobs row.signature).bind_eq
      fun blobs _ => ?_
    exact follows_pure rfl

theorem readTypes_follows (h : x.Shows s) (strings : StringHeap) :
    Follows Eq (readTypes x strings) (InteropTables.readTypes s strings) := by
  obtain ⟨found, hfound, hsame⟩ := h.table TypeDefRow
  rw [readTypes, hfound, Run.pure_then, InteropTables.readTypes]
  generalize s.table TypeDefRow = t? at hsame
  cases hsame with
  | none => exact follows_pure rfl
  | some hrows =>
    refine (allRows_follows h NestedClassRow).bind_eq fun nested _ => ?_
    refine (Rows.collect_rows_follows hrows).bind_eq fun rows _ => ?_
    refine (Follows.mapM fun row _ => ?_).bind_eq fun types _ => follows_pure rfl
    exact (definitionName_follows rows.toArray _ (Nat.zero_add namingLimit) row).bind_eq
      fun name _ => follows_pure rfl

theorem readMethod_follows (strings : StringHeap) (hblobs : blobs.data.size < wordCount 4)
    (row : MethodDefRow) :
    Follows Eq (readMethod strings blobs row) (InteropTables.readMethod strings blobs row) := by
  rw [readMethod, InteropTables.readMethod]
  refine (textAt_follows strings row.name).bind_eq fun name _ => ?_
  exact (blobAt_follows hblobs row.signature).bind_eq fun signature _ => follows_pure rfl

theorem readMethods_follows (h : x.Shows s) (strings : StringHeap)
    (hblobs : blobs.data.size < wordCount 4) :
    Follows Eq (readMethods x strings blobs) (InteropTables.readMethods s strings blobs) := by
  obtain ⟨found, hfound, hsame⟩ := h.table MethodDefRow
  rw [readMethods, hfound, Run.pure_then, InteropTables.readMethods]
  generalize s.table MethodDefRow = t? at hsame
  cases hsame with
  | none => exact follows_pure rfl
  | some hrows =>
    refine (Rows.collect_follows hrows fun row => readMethod_follows strings hblobs row).bind_eq
      fun methods _ => ?_
    exact follows_pure rfl

end Parts

/-! ## 2. Who lists which method -/

/-- The row that a place of the method list names, by the table of indirections if there is one. -/
def methodAt (pointers : Option (Rows MethodPtrRow)) (place : Nat) : Run Nat :=
  match pointers with
  | some table => do return (← table.get place).method
  | none => pure place

/-- The index of the method at a place, for the type with a given index. -/
def listedMethod (a : Assembly) (pointers : Option (Rows MethodPtrRow)) (type place : Nat) :
    Run Nat := do
  let row ← methodAt pointers place
  if 1 ≤ row ∧ row ≤ a.methods.size then do
    let _ ← entry a.types type
    sub row 1
  else do
    let number ← add 8 type 1
    .fail (.malformed (.listedMethod number row))

/-- The methods of the type with a given index, which begin at `start`. -/
def methodsOf (a : Assembly) (pointers : Option (Rows MethodPtrRow)) (length : Nat)
    (starts : Array Nat) (type start : Nat) : Run (List Nat) := do
  let following := starts[← add 8 type 1]?
  let stop := following.getD (← add 4 length 1)
  if start = 0 ∨ length < start ∨ stop ≤ start then return []
  else do
    let limit ← add 4 length 1
    (List.range' start (min stop limit - start)).mapM (listedMethod a pointers type)

/-- The number of places in the method list. -/
def listLength (tables : Tables) (pointers : Option (Rows MethodPtrRow)) : Run Nat :=
  match pointers with
  | some table => pure table.rowCount
  | none => do return (← entry tables.info.tables TableId.methodDef.number).rows

/-- The module with the method lists of its types. -/
def assignMethods (a : Assembly) (tables : Tables) : Run Assembly := do
  match ← tables.table TypeDefRow with
  | some table => do
    let pointers ← tables.table MethodPtrRow
    let length ← listLength tables pointers
    let rows ← table.collect pure
    let starts := rows.map (·.methodList)
    let lists ← starts.zipIdx.mapM fun (start, type) =>
      methodsOf a pointers length starts.toArray type start
    let declaring := declaringTypes a.methods.size lists
    return { a with
      types := a.types.zipWith (fun t methods => { t with methods }) lists.toArray
      methods := a.methods.zipWith (fun m declaring => { m with declaring }) declaring }
  | none => return a

/-- What is known of a module once its methods are assigned. -/
structure Loaded (a : Assembly) : Prop extends ShortBlobs a where
  listed : ∀ t ∈ a.types, ∀ i ∈ t.methods, i < a.methods.size

section Lists

variable {x : Tables} {s : TableStream} {a : Assembly}

/-- Every run ends where the next one begins, or behind the last place. -/
theorem methodLists_eq (list : MethodList) (methodCount : Nat) (starts : List Nat) :
    methodLists list methodCount starts = starts.zipIdx.mapM fun (start, type) =>
      (methodRun list.length start ((starts[type + 1]?).getD (list.length + 1))).mapM
        (InteropTables.listedMethod list methodCount (type + 1)) := by
  have hruns : (methodRuns list.length starts).zipIdx = starts.zipIdx.map fun (start, type) =>
      (methodRun list.length start ((starts[type + 1]?).getD (list.length + 1)), type) := by
    have hlength : (methodRuns list.length starts).length = starts.length := by
      rw [methodRuns, List.length_zipWith, List.length_append, List.length_drop,
        List.length_singleton]
      omega
    refine List.ext_getElem (by simp [hlength]) fun i hi hi' => ?_
    have hstop : ∀ h : i < (starts.drop 1 ++ [list.length + 1]).length,
        (starts.drop 1 ++ [list.length + 1])[i] = (starts[i + 1]?).getD (list.length + 1) := by
      intro h
      by_cases hlast : i + 1 < starts.length
      · rw [List.getElem_append_left (by rw [List.length_drop]; omega), List.getElem_drop,
          List.getElem?_eq_getElem hlast]
        simp only [Nat.add_comm 1 i, Option.getD_some]
      · rw [List.getElem_append_right (by rw [List.length_drop]; omega),
          List.getElem?_eq_none (by omega), List.getElem_singleton]
        rfl
    simp only [List.getElem_zipIdx, List.getElem_map, methodRuns, List.getElem_zipWith, hstop,
      Nat.zero_add]
  rw [methodLists, hruns, List.mapM_map]
  rfl

theorem methodAt_follows {pointers : Option (Rows MethodPtrRow)} {t? : Option (Table MethodPtrRow)}
    (h : Option.Rel Rows.Shows pointers t?) (length place : Nat) :
    Follows Eq (methodAt pointers place)
      (MethodList.methodAt (t?.elim (.direct length) .indirect) place) := by
  cases h with
  | none => exact follows_pure rfl
  | some hrows => exact (Rows.get_follows hrows place).map_eq _

theorem listedMethod_follows {pointers : Option (Rows MethodPtrRow)}
    {t? : Option (Table MethodPtrRow)} (h : Option.Rel Rows.Shows pointers t?) {type : Nat}
    (htype : type < a.types.size) (hsmall : type + 1 < wordCount 8) (length place : Nat) :
    Follows Eq (listedMethod a pointers type place)
      (InteropTables.listedMethod (t?.elim (.direct length) .indirect) a.methods.size (type + 1)
        place) := by
  rw [listedMethod, InteropTables.listedMethod]
  refine (methodAt_follows h length place).bind_eq fun row _ => ?_
  by_cases hrow : 1 ≤ row ∧ row ≤ a.methods.size
  · rw [if_pos hrow, if_pos hrow, entry_of_some (Array.getElem?_eq_getElem htype), Run.pure_then,
      sub_of_le hrow.1]
    exact follows_pure rfl
  · rw [if_neg hrow, if_neg hrow, add_of_lt hsmall]
    exact follows_fail _

/-- The number of places is the row count of a table that fits the stream, so the place behind the
last one is still a number of four bytes. -/
theorem methodsOf_follows {pointers : Option (Rows MethodPtrRow)}
    {t? : Option (Table MethodPtrRow)} (h : Option.Rel Rows.Shows pointers t?) {length : Nat}
    (hlength : length + 1 < wordCount 4) (starts : List Nat) {type : Nat}
    (htype : type < a.types.size) (hsmall : type + 1 < wordCount 8) (direct start : Nat) :
    Follows Eq (methodsOf a pointers length starts.toArray type start)
      ((methodRun length start ((starts[type + 1]?).getD (length + 1))).mapM
        (InteropTables.listedMethod (t?.elim (.direct direct) .indirect) a.methods.size
          (type + 1))) := by
  rw [methodsOf, add_of_lt hsmall, Run.pure_then, add_of_lt hlength, Run.pure_then,
    List.getElem?_toArray, methodRun]
  by_cases hnone : start = 0 ∨ length < start ∨ (starts[type + 1]?).getD (length + 1) ≤ start
  · rw [if_pos hnone, if_pos hnone]
    exact follows_pure rfl
  · rw [if_neg hnone, if_neg hnone, Run.pure_then]
    exact Follows.mapM fun place _ => listedMethod_follows h htype hsmall direct place

/-- There are as many types as lists, so every list belongs to a type. -/
theorem methodLists_follows {pointers : Option (Rows MethodPtrRow)}
    {t? : Option (Table MethodPtrRow)} (h : Option.Rel Rows.Shows pointers t?) {list : MethodList}
    {direct : Nat} (hlist : list = t?.elim (.direct direct) .indirect)
    (hlength : list.length + 1 < wordCount 4) {starts : List Nat}
    (hstarts : starts.length = a.types.size) (htypes : a.types.size + 1 < wordCount 8) :
    Follows Eq
      (starts.zipIdx.mapM fun (start, type) =>
        methodsOf a pointers list.length starts.toArray type start)
      (methodLists list a.methods.size starts) := by
  rw [methodLists_eq]
  refine Follows.mapM fun entry hentry => ?_
  obtain ⟨start, type⟩ := entry
  have htype : type < a.types.size := by
    have hlt := (List.mem_zipIdx hentry).2.1
    omega
  subst hlist
  exact methodsOf_follows h hlength starts htype (by omega) direct start

theorem listLength_eq (h : x.Shows s) {pointers : Option (Rows MethodPtrRow)}
    {t? : Option (Table MethodPtrRow)} (hsame : Option.Rel Rows.Shows pointers t?) :
    let list := t?.elim (.direct (s.rows .methodDef)) MethodList.indirect
    listLength x pointers = pure list.length ∧ list.length + 1 < wordCount 4 := by
  cases hsame with
  | none =>
    rw [listLength, entry_of_some (h.info.tables .methodDef)]
    exact ⟨rfl, h.rows_lt .methodDef⟩
  | some hrows =>
    rw [listLength, hrows.rowCount]
    exact ⟨rfl, hrows.rowCount_lt⟩

/-- Without types, nothing is assigned. -/
theorem assign_nothing (htypes : a.types = #[]) (hfresh : ∀ m ∈ a.methods, m.declaring = none) :
    ({ a with
      types := a.types.zipWith (fun t methods => { t with methods }) #[]
      methods := a.methods.zipWith (fun m declaring => { m with declaring })
        (declaringTypes a.methods.size []) } : Assembly) = a := by
  have hkeep : ∀ m : Method, m.declaring = none → { m with declaring := none } = m := by
    rintro ⟨⟩ rfl
    rfl
  have hmethods : a.methods.zipWith (fun m declaring => { m with declaring })
      (declaringTypes a.methods.size []) = a.methods := by
    have hnone : declaringTypes a.methods.size [] = Array.replicate a.methods.size none := rfl
    refine Array.ext (by rw [Array.size_zipWith, size_declaringTypes, Nat.min_self])
      fun i hi hi' => ?_
    simp only [hnone, Array.getElem_zipWith, Array.getElem_replicate]
    exact hkeep _ (hfresh _ (Array.getElem_mem hi'))
  have hnothing : a.types.zipWith (fun t methods => { t with methods }) #[] = a.types := by
    rw [htypes]
    simp
  rw [hmethods, hnothing]

/-- Assigned methods keep their signatures, and the types list existing methods only. -/
theorem loaded_assign (ha : ShortBlobs a) {list : MethodList} {starts : List Nat}
    {lists : List (List Nat)} (hlists : methodLists list a.methods.size starts = .ok lists) :
    Loaded { a with
      types := a.types.zipWith (fun t methods => { t with methods }) lists.toArray
      methods := a.methods.zipWith (fun m declaring => { m with declaring })
        (declaringTypes a.methods.size lists) } := by
  refine ⟨⟨ha.specification, fun m hm => ?_⟩, fun t ht i hi => ?_⟩
  · obtain ⟨k, hk, rfl⟩ := Array.mem_iff_getElem.1 hm
    have hlt : k < a.methods.size := by
      rw [Array.size_zipWith] at hk
      omega
    rw [Array.getElem_zipWith]
    exact ha.signature a.methods[k] (Array.getElem_mem hlt)
  · obtain ⟨k, hk, rfl⟩ := Array.mem_iff_getElem.1 ht
    rw [Array.getElem_zipWith] at hi
    rw [Array.size_zipWith, size_declaringTypes, Nat.min_self]
    exact methodLists_lt hlists _ (List.getElem_mem _) i hi

/-- **Methods are assigned as the library assigns them.** -/
theorem assignMethods_follows (h : x.Shows s) (ha : ShortBlobs a)
    (htypes : a.types.size = (s.table TypeDefRow).elim 0 Table.rowCount)
    (hfresh : ∀ m ∈ a.methods, m.declaring = none) :
    Follows (fun b c => b = c ∧ Loaded c) (assignMethods a x) (a.assignMethods s) := by
  have hfour := wordCount_four
  have height := wordCount_eight
  obtain ⟨found, hfound, hsame⟩ := h.table TypeDefRow
  obtain ⟨pointers, hpointers, hlist⟩ := h.table MethodPtrRow
  have hlibrary : Assembly.methodList s
      = (s.table MethodPtrRow).elim (.direct (s.rows .methodDef)) MethodList.indirect := by
    rw [Assembly.methodList]
    cases s.table MethodPtrRow <;> rfl
  rw [assignMethods, hfound, Run.pure_then, Assembly.assignMethods, TableStream.allRows, hlibrary]
  generalize s.table TypeDefRow = t? at hsame htypes
  cases hsame with
  | none =>
    have hempty : a.types = #[] := Array.eq_empty_of_size_eq_zero htypes
    have hnone : methodLists (.direct 0) a.methods.size [] = .ok [] := rfl
    have hloaded := loaded_assign ha hnone
    have hsame := assign_nothing hempty hfresh
    refine ⟨a, rfl, hsame.symm, ?_⟩
    exact hloaded
  | some hrows =>
    obtain ⟨hlength, hsmall⟩ := listLength_eq h hlist
    have hrowCount := hrows.rowCount_lt
    have htypes : a.types.size = _ := htypes
    dsimp only [Option.elim_some] at hlength hsmall htypes ⊢
    rw [hpointers, Run.pure_then, hlength, Run.pure_then]
    refine (Rows.collect_rows_follows hrows).bind_eq fun rows hread => ?_
    have hstarts : (rows.map (·.methodList)).length = a.types.size := by
      rw [List.length_map, length_of_mapM_ok hread, Table.length_rows, htypes]
    refine (methodLists_follows hlist rfl hsmall hstarts (by omega)).bind_eq fun lists hok => ?_
    exact follows_pure ⟨rfl, loaded_assign ha hok⟩

end Lists

/-! ## 3. Native imports -/

/-- The row with a given number of a table that may be absent, as far as it can be read. -/
def lookUp [TableRow ρ] (table? : Option (Rows ρ)) (number : Nat) : Run (Option ρ) :=
  match table? with
  | some table => do return (← (table.get number).attempt).toOption
  | none => return none

/-- The native function that a row names, for a method that exists. -/
def readImport (modules : Option (Rows ModuleRefRow)) (strings : StringHeap) (row : ImplMapRow) :
    Run NativeImport := do
  match ← lookUp modules row.importScope with
  | none => .fail (.malformed (.importScope row.number row.importScope))
  | some native => do
    let module ← textAt strings native.name
    let entryPoint ← textAt strings row.importName
    return { module, entryPoint, flags := row.flags }

/-- The methods with the import of one more row. -/
def bindImport (modules : Option (Rows ModuleRefRow)) (strings : StringHeap)
    (methods : Array Method) (row : ImplMapRow) : Run (Array Method) :=
  if row.member.table = .methodDef then
    if 1 ≤ row.member.row ∧ row.member.row ≤ methods.size then do
      let found ← readImport modules strings row
      return methods.modify (row.member.row - 1) fun m => { m with imported := some found }
    else .fail (.malformed (.forwardedMethod row.number row.member.token))
  else return methods

/-- The module with the native imports of its methods. -/
def bindImports (a : Assembly) (tables : Tables) (strings : StringHeap) : Run Assembly := do
  match ← tables.table ImplMapRow with
  | some table => do
    let modules ← tables.table ModuleRefRow
    let methods ← table.fold (fun methods row => do
      bindImport modules strings methods (← Run.of row)) a.methods
    return { a with methods }
  | none => return a

section Imports

variable {x : Tables} {s : TableStream} {a : Assembly}

theorem lookUp_eq [TableRow ρ] {x? : Option (Rows ρ)} {t? : Option (Table ρ)}
    (h : Option.Rel Rows.Shows x? t?) (number : Nat) :
    lookUp x? number = pure (t?.bind fun table => (table.get number).toOption) := by
  cases h with
  | none => rfl
  | some hrows =>
    rw [lookUp, (Rows.get_follows hrows number).attempt]
    rfl

theorem readImport_follows {modules : Option (Rows ModuleRefRow)}
    (hmodules : Option.Rel Rows.Shows modules (s.table ModuleRefRow)) (strings : StringHeap)
    (row : ImplMapRow) :
    Follows Eq (readImport modules strings row) (Assembly.readImport s strings row) := by
  rw [readImport, lookUp_eq hmodules, Run.pure_then, Assembly.readImport]
  cases (s.table ModuleRefRow).bind fun table => (table.get row.importScope).toOption with
  | none => exact follows_fail _
  | some native =>
    refine (textAt_follows strings native.name).bind_eq fun module _ => ?_
    exact (textAt_follows strings row.importName).bind_eq fun entryPoint _ => follows_pure rfl

/-- A change of methods that keeps their signatures short and their number. -/
structure Keeps (count : Nat) (methods : Array Method) : Prop where
  size : methods.size = count
  signature : ∀ m ∈ methods, m.signature.size < wordCount 4

theorem Keeps.modify {count : Nat} {methods : Array Method} (h : Keeps count methods)
    (i : Nat) {f : Method → Method} (hf : ∀ m, (f m).signature = m.signature) :
    Keeps count (methods.modify i f) := by
  refine ⟨by rw [Array.size_modify, h.size], fun m hm => ?_⟩
  obtain ⟨k, hk, rfl⟩ := Array.mem_iff_getElem.1 hm
  rw [Array.size_modify] at hk
  rw [Array.getElem_modify]
  split
  · rw [hf]
    exact h.signature _ (Array.getElem_mem hk)
  · exact h.signature _ (Array.getElem_mem hk)

theorem bindImport_follows {modules : Option (Rows ModuleRefRow)}
    (hmodules : Option.Rel Rows.Shows modules (s.table ModuleRefRow)) (strings : StringHeap)
    {count : Nat} {methods : Array Method} (hkeeps : Keeps count methods) (row : ImplMapRow) :
    Follows (fun b c => b = c ∧ Keeps count c) (bindImport modules strings methods row)
      (Assembly.bindImport s strings methods row) := by
  rw [bindImport, Assembly.bindImport]
  refine .ite (fun _ => .ite (fun _ => ?_) fun _ => ?_) fun _ => ?_
  · refine (readImport_follows hmodules strings row).bind_eq fun found _ => ?_
    exact follows_pure ⟨rfl, hkeeps.modify _ fun _ => rfl⟩
  · exact follows_fail _
  · exact follows_pure ⟨rfl, hkeeps⟩

theorem Loaded.keeps (ha : Loaded a) : Keeps a.methods.size a.methods :=
  ⟨rfl, ha.signature⟩

theorem Loaded.withMethods (ha : Loaded a) {methods : Array Method}
    (h : Keeps a.methods.size methods) : Loaded { a with methods } := by
  refine ⟨⟨ha.specification, h.signature⟩, fun t ht i hi => ?_⟩
  show i < methods.size
  rw [h.size]
  exact ha.listed t ht i hi

/-- **Imports are bound as the library binds them.** -/
theorem bindImports_follows (h : x.Shows s) (ha : Loaded a) (strings : StringHeap) :
    Follows (fun b c => b = c ∧ Loaded c) (bindImports a x strings) (a.bindImports s strings) := by
  obtain ⟨found, hfound, hsame⟩ := h.table ImplMapRow
  obtain ⟨modules, hmodules, hmodulesSame⟩ := h.table ModuleRefRow
  rw [bindImports, hfound, Run.pure_then, Assembly.bindImports]
  generalize s.table ImplMapRow = t? at hsame
  cases hsame with
  | none => exact follows_pure ⟨rfl, ha⟩
  | some hrows =>
    dsimp only [Option.elim_some]
    rw [hmodules, Run.pure_then]
    refine (Rows.fold_follows (Q := fun b c => b = c ∧ Keeps a.methods.size c) hrows
      (fun row b c hbc => ?_) ⟨rfl, ha.keeps⟩).bind fun b c _ hbc => ?_
    · obtain ⟨rfl, hkeeps⟩ := hbc
      exact (follows_of row).bind_eq fun r _ =>
        bindImport_follows hmodulesSame strings hkeeps r
    · obtain ⟨rfl, hkeeps⟩ := hbc
      exact follows_pure ⟨rfl, ha.withMethods hkeeps⟩

end Imports

/-! ## 4. Attributes -/

/-- The type that declares a constructor, or why it is not known. -/
def resolve (a : Assembly) (members : Option (Rows MemberRefRow)) (strings : StringHeap)
    (made : CodedIndex) : Run Attribute :=
  match made.table with
  | .methodDef =>
    match (rowOf? a.methods made.row).bind a.declaringType? with
    | some t => return .resolved t.name.space t.name.name
    | none =>
      return .unresolved ("constructor " ++ made.token.display ++ " has no declaring type")
  | .memberRef => do
    match ← lookUp members made.row with
    | none => return .unresolved ("constructor " ++ made.token.display ++ " does not exist")
    | some member =>
      if member.parent.table ∈ [.typeDef, .typeRef, .typeSpec] then do
        match ← (describeRow a member.parent.token false).attempt with
        | .ok t => return .resolved t.space t.name
        | .error cause => return .unresolved cause.report
      else do
        let name := (← (textAt strings member.name).attempt).toOption.getD ""
        return .unresolved ("constructor " ++ name ++ " is declared on " ++
          member.parent.token.display ++ ", which is not a type")
  | _ => return .unresolved ("constructor token " ++ made.token.display ++ " is not a method")

/-- The meaning of an attribute row, whose method must have its place in the list. -/
def useOf (a : Assembly) (members : Option (Rows MemberRefRow)) (strings : StringHeap)
    (row : Except Fault CustomAttributeRow) : Run Assembly.AttributeUse :=
  match row with
  | .error cause => return .unreadable cause
  | .ok row =>
    if row.parent.table = .methodDef then
      if 1 ≤ row.parent.row ∧ row.parent.row ≤ a.methods.size then do
        let value ← resolve a members strings row.constructor
        let _ ← entry a.methods (row.parent.row - 1)
        return .applied (row.parent.row - 1) value
      else return .stray (TableRow.token CustomAttributeRow row.number) row.parent.token
    else return .elsewhere

/-- The meanings of all attribute rows, in order. -/
def readUses (a : Assembly) (tables : Tables) (strings : StringHeap) :
    Run (List Assembly.AttributeUse) := do
  match ← tables.table CustomAttributeRow with
  | some table => do
    let members ← tables.table MemberRefRow
    table.visit (useOf a members strings)
  | none => return []

section Attributes

variable {x : Tables} {s : TableStream} {a : Assembly}

/-- A type that cannot be described leaves an attribute unresolved and stops nothing. -/
theorem resolve_eq (ha : ShortBlobs a) {x? : Option (Rows MemberRefRow)}
    {t? : Option (Table MemberRefRow)} (h : Option.Rel Rows.Shows x? t?) (strings : StringHeap)
    (made : CodedIndex) : resolve a x? strings made = pure (a.resolve t? strings made) := by
  rw [resolve, Assembly.resolve]
  generalize made.table = kind
  cases kind with
  | methodDef =>
    dsimp only
    cases (rowOf? a.methods made.row).bind a.declaringType? <;> rfl
  | memberRef =>
    dsimp only
    rw [lookUp_eq h, Run.pure_then]
    cases t?.bind fun table => (table.get made.row).toOption with
    | none => rfl
    | some member =>
      dsimp only
      by_cases hparent : member.parent.table ∈ [TableId.typeDef, .typeRef, .typeSpec]
      · rw [if_pos hparent, if_pos hparent,
          (describeRow_follows ha member.parent.token false).attempt, Run.pure_then]
        cases a.describeRow member.parent.token false <;> rfl
      · rw [if_neg hparent, if_neg hparent, (textAt_follows strings member.name).attempt]
        rfl
  | _ => rfl

theorem useOf_eq (ha : ShortBlobs a) {x? : Option (Rows MemberRefRow)}
    {t? : Option (Table MemberRefRow)} (h : Option.Rel Rows.Shows x? t?) (strings : StringHeap)
    (row : Except Fault CustomAttributeRow) :
    useOf a x? strings row = pure (a.attributeUse t? strings row) := by
  cases row with
  | error cause => rfl
  | ok row =>
    rw [useOf, Assembly.attributeUse]
    by_cases hparent : row.parent.table = .methodDef
    · rw [if_pos hparent, if_pos hparent]
      by_cases hrow : 1 ≤ row.parent.row ∧ row.parent.row ≤ a.methods.size
      · have hlt : row.parent.row - 1 < a.methods.size := by omega
        rw [if_pos hrow, if_pos hrow, resolve_eq ha h, Run.pure_then,
          entry_of_some (Array.getElem?_eq_getElem hlt)]
        rfl
      · rw [if_neg hrow, if_neg hrow]
    · rw [if_neg hparent, if_neg hparent]

/-- **Attributes never stop the loading.** -/
theorem readUses_eq (h : x.Shows s) (ha : ShortBlobs a) (strings : StringHeap) :
    readUses a x strings = pure (a.attributeUses s strings) := by
  obtain ⟨found, hfound, hsame⟩ := h.table CustomAttributeRow
  obtain ⟨members, hmembers, hmembersSame⟩ := h.table MemberRefRow
  rw [readUses, hfound, Run.pure_then, Assembly.attributeUses]
  generalize s.table CustomAttributeRow = t? at hsame
  cases hsame with
  | none => rfl
  | some hrows =>
    dsimp only [Option.elim_some]
    rw [hmembers, Run.pure_then]
    have huse : ∀ row, Follows Eq (useOf a members strings row)
        (pure (a.attributeUse (s.table MemberRefRow) strings row)) := by
      intro row
      rw [useOf_eq ha hmembersSame]
      exact follows_pure rfl
    rw [(Rows.visit_follows hrows huse).eq, List.mapM_pure]
    rfl

theorem Keeps.apply {count : Nat} {methods : Array Method} (h : Keeps count methods)
    (use : Assembly.AttributeUse) : Keeps count (use.apply methods) := by
  cases use with
  | applied index value => exact h.modify index fun _ => rfl
  | _ => exact h

theorem Loaded.attach (ha : Loaded a) (uses : List Assembly.AttributeUse) :
    Loaded (a.attachAttributes uses) := by
  refine ha.withMethods ?_
  have hkeeps : ∀ methods, Keeps a.methods.size methods →
      Keeps a.methods.size (uses.foldl Assembly.AttributeUse.apply methods) := by
    induction uses with
    | nil => exact fun _ h => h
    | cons use uses ih => exact fun methods h => ih _ (h.apply use)
  exact hkeeps a.methods ha.keeps

end Attributes

/-! ## 5. The whole module -/

/-- The module up to its attributes. -/
def loadStructure (tables : Tables) (strings : StringHeap) (blobs : BlobHeap) : Run Assembly := do
  let identity ← readIdentity tables strings
  let references ← readReferences tables strings
  let specifications ← readSpecifications tables blobs
  let types ← readTypes tables strings
  let methods ← readMethods tables strings blobs
  let a : Assembly := { identity, types, methods, references, specifications }
  bindImports (← assignMethods a tables) tables strings

/-- The module that the given streams describe, with the report of its loading. -/
def ofStreams (streams : Streams) : Run (Assembly × List Event) :=
  match streams.tables, streams.strings with
  | none, _ => .fail (.malformed .noTableStream)
  | some _, none => .fail (.malformed .noStringHeap)
  | some tables, some strings => do
    let a ← loadStructure tables strings (streams.blobs.getD .nothing)
    let uses ← readUses a tables strings
    let loaded := Event.loaded a.identity a.types.size a.methods.size
    return (a.attachAttributes uses, uses.filterMap (·.event?) ++ [loaded])

/-- The module of a file whose headers `parse` reads, with the report of its loading. -/
def load (parse : ByteArray → Except Fault Image) (data : ByteArray) :
    Run (Assembly × List Event) := do
  ofStreams (← readStreams (← Run.of (parse data)))

/-- What the library loads when `parse` reads the headers of files. -/
def outcome (parse : ByteArray → Except Fault Image) (data : ByteArray) :
    Except Fault (Assembly × List Event) := do
  Assembly.ofStreams (← MetadataFile.ofImage (← parse data)).streams

theorem outcome_ofBytes (data : ByteArray) : outcome Image.ofBytes data = Assembly.load data := by
  simp only [outcome, Assembly.load, MetadataFile.ofBytes, bind_assoc]

section Whole

variable {x : Tables} {s : TableStream} {strings : StringHeap} {blobs : BlobHeap}

theorem specifications_lt (hblobs : blobs.data.size < wordCount 4)
    {specifications : Array ByteArray}
    (h : InteropTables.readSpecifications s blobs = .ok specifications) :
    ∀ blob ∈ specifications, blob.size < wordCount 4 := by
  obtain ⟨found, hfound, h⟩ := exists_of_bind_ok h
  obtain rfl := Except.ok.inj h
  have hall : ∀ blob ∈ found, blob.size < wordCount 4 := by
    refine forall_of_mapM_ok hfound fun row blob hrow => ?_
    obtain ⟨row, _, hget⟩ := exists_of_bind_ok hrow
    exact size_blob_lt hblobs hget
  exact fun blob hblob => hall blob (List.mem_toArray.1 hblob)

theorem methods_fresh (hblobs : blobs.data.size < wordCount 4) {methods : Array Method}
    (h : InteropTables.readMethods s strings blobs = .ok methods) :
    ∀ m ∈ methods, m.declaring = none ∧ m.signature.size < wordCount 4 := by
  obtain ⟨found, hfound, h⟩ := exists_of_bind_ok h
  obtain rfl := Except.ok.inj h
  have hall : ∀ m ∈ found, m.declaring = none ∧ m.signature.size < wordCount 4 := by
    refine forall_of_mapM_ok hfound fun row m hrow => ?_
    obtain ⟨row, _, hread⟩ := exists_of_bind_ok hrow
    obtain ⟨name, _, hread⟩ := exists_of_bind_ok hread
    obtain ⟨signature, hsignature, hread⟩ := exists_of_bind_ok hread
    rw [← Except.ok.inj hread]
    exact ⟨rfl, size_blob_lt hblobs hsignature⟩
  exact fun m hm => hall m (List.mem_toArray.1 hm)

/-- **The structure of a module is loaded as the library loads it.** -/
theorem loadStructure_follows (h : x.Shows s) (strings : StringHeap)
    (hblobs : blobs.data.size < wordCount 4) :
    Follows (fun b c => b = c ∧ Loaded c) (loadStructure x strings blobs)
      (Assembly.loadStructure s strings blobs) := by
  rw [loadStructure, Assembly.loadStructure]
  refine (readIdentity_follows h strings).bind_eq fun identity _ => ?_
  refine (readReferences_follows h strings).bind_eq fun references _ => ?_
  refine (readSpecifications_follows h hblobs).bind_eq fun specifications hspecifications => ?_
  refine (readTypes_follows h strings).bind_eq fun types htypes => ?_
  refine (readMethods_follows h strings hblobs).bind_eq fun methods hmethods => ?_
  have hfresh := methods_fresh hblobs hmethods
  have hshort : ShortBlobs { identity, types, methods, references, specifications } :=
    ⟨specifications_lt hblobs hspecifications, fun m hm => (hfresh m hm).2⟩
  refine (assignMethods_follows h hshort (size_readTypes htypes) fun m hm => (hfresh m hm).1).bind
    fun b c _ hbc => ?_
  obtain ⟨rfl, hloaded⟩ := hbc
  exact bindImports_follows h hloaded strings

/-- **A module is loaded as the library loads it.** -/
theorem ofStreams_follows {streams : Streams} {found : MetadataStreams}
    (h : streams.Shows found) :
    Follows (fun b c => b = c ∧ Loaded c.1) (ofStreams streams) (Assembly.ofStreams found) := by
  have hblobs : (found.blobs.getD .nothing).data.size < wordCount 4 := by
    cases hheap : found.blobs with
    | none => decide
    | some heap => exact h.blobSize heap hheap
  have htables := h.tables
  rw [ofStreams, Assembly.ofStreams, h.strings, h.blobs]
  generalize streams.tables = x? at htables
  generalize found.tables = t? at htables
  cases htables with
  | none => exact follows_fail _
  | some hshows =>
    cases found.strings with
    | none => exact follows_fail _
    | some strings =>
      refine (loadStructure_follows hshows strings hblobs).bind fun b c _ hbc => ?_
      obtain ⟨rfl, hloaded⟩ := hbc
      rw [readUses_eq hshows hloaded.toShortBlobs, Run.pure_then]
      exact follows_pure ⟨rfl, hloaded.attach _⟩

/-- **A file is loaded as the library loads it**, whenever the numbers in the headers that `parse`
finds fit their words. -/
theorem load_follows {parse : ByteArray → Except Fault Image}
    (hparse : ∀ data image, parse data = .ok image → image.Narrow) (data : ByteArray) :
    Follows (fun b c => b = c ∧ Loaded c.1) (load parse data) (outcome parse data) := by
  rw [load, outcome]
  refine (follows_of (parse data)).bind_eq fun image himage => ?_
  have hstreams := readStreams_follows (hparse data image himage)
  have hlibrary : (do Assembly.ofStreams (← MetadataFile.ofImage image).streams)
      = (do return (← MetadataFile.ofImage image).streams) >>= Assembly.ofStreams := by
    rw [bind_assoc]
    rfl
  rw [hlibrary]
  exact hstreams.bind fun streams found _ h => ofStreams_follows h

end Whole

end Machine

end InteropTables
