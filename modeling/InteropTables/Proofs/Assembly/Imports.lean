import InteropTables.Proofs.Assembly.Attributes
import InteropTables.Proofs.HeapContents
import InteropTables.Proofs.Metadata.RowBytes
import Mathlib.Data.List.Induction

/-!
# Which native function a method gets

The rows of native functions are gone through in order. A row about a method must lead to it, to a
row of native modules and to two texts; a row about anything else is passed over, whatever it says.
Each row writes over what an earlier one said of the same method, so the last one stays.

* `ImplMapRow.Names`, `readImport_eq_ok_iff`: the native function that a row names;
* `Binds`, `bindImport_eq_ok_iff`: **one row**;
* `Bindable`, `exists_bindRows_iff`: **rows succeed together if each of them does**;
* `lastAbout`, `ImportOf`, `getElem?_bindRows`: **the last row about a method decides its import**;
* `exists_get_moduleRef_iff`, `exists_of_mem_importRows`: rows that exist can be read;
* `BoundFrom`, `boundFrom_of_bindImports`: what binding changes of a module;
* `imports_are_bound`: **all rows, and a loaded module.**
-/

namespace InteropTables

/-! ## 1. One row -/

/-- A row names a native function: it leads to a row of native modules, whose name is a text of the
heap, and the name of the function is another. -/
structure ImplMapRow.Names (row : ImplMapRow) (tables : TableStream) (strings : StringHeap)
    (found : NativeImport) : Prop where
  module : ∃ table native, tables.table ModuleRefRow = some table ∧
    table.get row.importScope = .ok native ∧
    HoldsText (Bytes.toList strings.data) native.name found.module
  entryPoint : HoldsText (Bytes.toList strings.data) row.importName found.entryPoint
  flags : found.flags = row.flags

namespace Assembly

variable {tables : TableStream} {strings : StringHeap}

theorem readImport_eq_ok_iff {row : ImplMapRow} {found : NativeImport} :
    readImport tables strings row = .ok found ↔ row.Names tables strings found := by
  unfold readImport
  constructor
  · intro h
    dsimp only at h
    split at h
    · cases h
    · rename_i native hnative
      obtain ⟨table, htable, hget⟩ := Option.bind_eq_some_iff.1 hnative
      have hget : table.get row.importScope = .ok native := by
        cases hrow : table.get row.importScope with
        | ok other =>
          rw [hrow] at hget
          rw [Option.some.inj hget]
        | error e =>
          rw [hrow] at hget
          cases hget
      obtain ⟨module, hmodule, h⟩ := exists_of_bind_ok h
      obtain ⟨entryPoint, hentry, h⟩ := exists_of_bind_ok h
      obtain rfl := Except.ok.inj h
      exact ⟨⟨table, native, htable, hget, StringHeap.get_eq_ok_iff.1 hmodule⟩,
        StringHeap.get_eq_ok_iff.1 hentry, rfl⟩
  · rintro ⟨⟨table, native, htable, hget, hmodule⟩, hentry, hflags⟩
    rw [htable, Option.bind_some, hget]
    dsimp only [Except.toOption]
    rw [StringHeap.get_eq_ok_iff.2 hmodule, bind_ok, StringHeap.get_eq_ok_iff.2 hentry, bind_ok,
      ← hflags]
    rfl

/-- What a row makes of the methods: nothing if it is about something else, and else the method that
it is about gets the native function that it names. -/
inductive Binds (tables : TableStream) (strings : StringHeap) (methods : Array Method)
    (row : ImplMapRow) : Array Method → Prop where
  | passedOver (hother : row.member.table ≠ .methodDef) : Binds tables strings methods row methods
  | bound {found : NativeImport} (hmethod : row.member.table = .methodDef)
    (hfirst : 1 ≤ row.member.row) (hlast : row.member.row ≤ methods.size)
    (hnames : row.Names tables strings found) :
    Binds tables strings methods row
      (methods.modify (row.member.row - 1) fun m => { m with imported := some found })

/-- **One row.** -/
theorem bindImport_eq_ok_iff {methods after : Array Method} {row : ImplMapRow} :
    bindImport tables strings methods row = .ok after ↔
      Binds tables strings methods row after := by
  unfold bindImport
  constructor
  · intro h
    split at h
    · split at h
      · rename_i hmethod hexists
        obtain ⟨found, hfound, h⟩ := exists_of_bind_ok h
        obtain rfl := Except.ok.inj h
        exact .bound hmethod hexists.1 hexists.2 (readImport_eq_ok_iff.1 hfound)
      · cases h
    · rename_i hother
      obtain rfl := Except.ok.inj h
      exact .passedOver hother
  · intro h
    cases h with
    | passedOver hother => exact if_neg hother
    | bound hmethod hfirst hlast hnames =>
      rw [if_pos hmethod, if_pos ⟨hfirst, hlast⟩, readImport_eq_ok_iff.2 hnames]
      rfl

theorem Binds.size_eq {methods after : Array Method} {row : ImplMapRow}
    (h : Binds tables strings methods row after) : after.size = methods.size := by
  cases h with
  | passedOver _ => rfl
  | bound _ _ _ _ => exact Array.size_modify

/-! ## 2. All rows -/

/-- A row can be read, and if it is about a method, the method exists and the row names a native
function. -/
def Bindable (tables : TableStream) (strings : StringHeap) (methodCount : Nat)
    (row? : Except Fault ImplMapRow) : Prop :=
  ∃ row, row? = .ok row ∧ (row.member.table = .methodDef →
    1 ≤ row.member.row ∧ row.member.row ≤ methodCount ∧ ∃ found, row.Names tables strings found)

theorem bindable_iff {methods : Array Method} {row? : Except Fault ImplMapRow} :
    Bindable tables strings methods.size row? ↔
      ∃ row after, row? = .ok row ∧ Binds tables strings methods row after := by
  constructor
  · rintro ⟨row, hrow, hmember⟩
    by_cases hmethod : row.member.table = .methodDef
    · obtain ⟨hfirst, hlast, found, hnames⟩ := hmember hmethod
      exact ⟨row, _, hrow, .bound hmethod hfirst hlast hnames⟩
    · exact ⟨row, methods, hrow, .passedOver hmethod⟩
  · rintro ⟨row, after, hrow, hbinds⟩
    refine ⟨row, hrow, fun hmethod => ?_⟩
    cases hbinds with
    | passedOver hother => exact absurd hmethod hother
    | bound _ hfirst hlast hnames => exact ⟨hfirst, hlast, _, hnames⟩

/-- The rows of native functions. -/
def importRows (tables : TableStream) : List (Except Fault ImplMapRow) :=
  (tables.table ImplMapRow).elim [] Table.rows

/-- The methods with the imports of some more rows. -/
def bindRows (tables : TableStream) (strings : StringHeap) (methods : Array Method)
    (rows : List (Except Fault ImplMapRow)) : Except Fault (Array Method) :=
  rows.foldlM (fun methods row => do bindImport tables strings methods (← row)) methods

theorem bindImports_eq (a : Assembly) : a.bindImports tables strings
    = (bindRows tables strings a.methods (importRows tables)).map fun methods =>
        { a with methods } := by
  show (bindRows tables strings a.methods (importRows tables) >>= _) = _
  cases bindRows tables strings a.methods (importRows tables) <;> rfl

/-- **Rows succeed together if each of them does.** The induction is on the rows; none of them
changes the number of methods. -/
theorem exists_bindRows_iff {rows : List (Except Fault ImplMapRow)} :
    ∀ {methods : Array Method}, (∃ after, bindRows tables strings methods rows = .ok after) ↔
      ∀ row? ∈ rows, Bindable tables strings methods.size row? := by
  induction rows with
  | nil => exact ⟨fun _ => List.forall_mem_nil _, fun _ => ⟨_, rfl⟩⟩
  | cons row? rows ih =>
    intro methods
    rw [List.forall_mem_cons, bindable_iff]
    constructor
    · rintro ⟨after, h⟩
      unfold bindRows at h
      rw [List.foldlM_cons] at h
      obtain ⟨next, hstep, hmore⟩ := exists_of_bind_ok h
      obtain ⟨row, hrow, hnext⟩ := exists_of_bind_ok hstep
      have hbinds := bindImport_eq_ok_iff.1 hnext
      refine ⟨⟨row, next, hrow, hbinds⟩, ?_⟩
      rw [← hbinds.size_eq]
      exact ih.1 ⟨after, hmore⟩
    · rintro ⟨⟨row, next, rfl, hbinds⟩, hmore⟩
      rw [← hbinds.size_eq] at hmore
      obtain ⟨after, hafter⟩ := ih.2 hmore
      refine ⟨after, ?_⟩
      unfold bindRows
      rw [List.foldlM_cons, bind_ok, bindImport_eq_ok_iff.2 hbinds, bind_ok]
      exact hafter

/-- The last of some rows about the method with an index. -/
def lastAbout (index : Nat) (rows : List (Except Fault ImplMapRow)) : Option ImplMapRow :=
  ((rows.filterMap Except.toOption).filter fun row =>
    row.member = ⟨.methodDef, index + 1⟩).getLast?

/-- The import of a method, given the last row about it: what that row names, and without a row what
was there before. -/
inductive ImportOf (tables : TableStream) (strings : StringHeap) (before : Option NativeImport) :
    Option ImplMapRow → Option NativeImport → Prop where
  | kept : ImportOf tables strings before none before
  | bound {row : ImplMapRow} {found : NativeImport} (hnames : row.Names tables strings found) :
    ImportOf tables strings before (some row) (some found)

theorem lastAbout_append (index : Nat) (rows : List (Except Fault ImplMapRow)) (row : ImplMapRow) :
    lastAbout index (rows ++ [.ok row])
      = if row.member = ⟨.methodDef, index + 1⟩ then some row else lastAbout index rows := by
  unfold lastAbout
  rw [List.filterMap_append, List.filter_append]
  by_cases hrow : row.member = ⟨.methodDef, index + 1⟩
  · simp [Except.toOption, hrow]
  · simp [Except.toOption, hrow]

/-- What one row leaves of a method: all but its import, which the row decides if it is about it. -/
theorem Binds.getElem? {methods after : Array Method} {row : ImplMapRow}
    (h : Binds tables strings methods row after) {i : Nat} {m : Method}
    (hm : methods[i]? = some m) :
    (row.member ≠ ⟨.methodDef, i + 1⟩ ∧ after[i]? = some m) ∨
    ∃ found, row.member = ⟨.methodDef, i + 1⟩ ∧ row.Names tables strings found ∧
      after[i]? = some { m with imported := some found } := by
  cases h with
  | passedOver hother =>
    refine .inl ⟨fun h => hother ?_, hm⟩
    rw [h]
  | @bound found hmethod hfirst hlast hnames =>
    rw [Array.getElem?_modify, hm]
    by_cases hi : row.member.row - 1 = i
    · have hmember : row.member = ⟨.methodDef, i + 1⟩ := by
        rw [← hmethod, ← hi, Nat.sub_add_cancel hfirst]
      exact .inr ⟨found, hmember, hnames, by rw [if_pos hi]; rfl⟩
    · refine .inl ⟨fun h => hi ?_, by rw [if_neg hi]⟩
      rw [h, Nat.add_sub_cancel]

/-- **The last row about a method decides its import**, and the rows leave all else. The induction
is on the rows from their end, for there stands the row that decides. -/
theorem getElem?_bindRows {rows : List (Except Fault ImplMapRow)} :
    ∀ {methods after : Array Method}, bindRows tables strings methods rows = .ok after →
      ∀ {i : Nat} {m : Method}, methods[i]? = some m →
        ∃ imported, after[i]? = some { m with imported } ∧
          ImportOf tables strings m.imported (lastAbout i rows) imported := by
  induction rows using List.reverseRecOn with
  | nil =>
    intro methods after h i m hm
    obtain rfl := Except.ok.inj h
    exact ⟨m.imported, hm, .kept⟩
  | append_singleton rows row? ih =>
    intro methods after h i m hm
    unfold bindRows at h
    rw [List.foldlM_append] at h
    obtain ⟨before, hbefore, hlast⟩ := exists_of_bind_ok h
    rw [List.foldlM_cons] at hlast
    obtain ⟨next, hstep, hend⟩ := exists_of_bind_ok hlast
    obtain rfl := Except.ok.inj hend
    obtain ⟨row, rfl, hnext⟩ := exists_of_bind_ok hstep
    obtain ⟨imported, hmethod, himport⟩ := ih hbefore hm
    rw [lastAbout_append]
    rcases (bindImport_eq_ok_iff.1 hnext).getElem? hmethod with
      ⟨hother, hkept⟩ | ⟨found, hmember, hnames, hset⟩
    · rw [if_neg hother]
      exact ⟨imported, hkept, himport⟩
    · rw [if_pos hmember]
      exact ⟨some found, hset, .bound hnames⟩

/-! ## 3. Rows that exist -/

/-- A row of native modules can be read exactly if the table has it. -/
theorem exists_get_moduleRef_iff {table : Table ModuleRefRow}
    (h : tables.table ModuleRefRow = some table) {number : Nat} :
    (∃ native, table.get number = .ok native) ↔ 1 ≤ number ∧ number ≤ table.rowCount := by
  constructor
  · rintro ⟨native, hget⟩
    by_contra hnone
    cases (Table.get_eq_error_of_not_mem hnone).symm.trans hget
  · rintro ⟨hfirst, hlast⟩
    refine Table.exists_get (TableStream.inside_of_table h).2 (fun kind hkind => ?_) hfirst hlast
    rcases List.mem_singleton.1 hkind

/-- Every row of native functions can be read: it is about a field or about a method, and there is
no third tag. -/
theorem exists_of_mem_importRows {row? : Except Fault ImplMapRow} (h : row? ∈ importRows tables) :
    ∃ row, row? = .ok row := by
  unfold importRows at h
  cases htable : tables.table ImplMapRow with
  | none =>
    rw [htable] at h
    cases h
  | some table =>
    rw [htable] at h
    obtain ⟨i, hi, rfl⟩ := List.mem_map.1 h
    refine Table.exists_get (TableStream.inside_of_table htable).2 (fun kind hkind => ?_)
      (Nat.succ_pos i) (List.mem_range.1 hi)
    have hkind : kind = .memberForwarded := by
      simpa [TableRow.table, TableId.columns] using hkind
    rw [hkind]
    decide

/-! ## 4. Modules -/

/-- Binding succeeds exactly if every row can be bound. -/
theorem exists_bindImports_iff {a : Assembly} : (∃ b, a.bindImports tables strings = .ok b) ↔
    ∀ row? ∈ importRows tables, Bindable tables strings a.methods.size row? := by
  rw [← exists_bindRows_iff, bindImports_eq]
  constructor
  · rintro ⟨b, h⟩
    obtain ⟨methods, hmethods, -⟩ := exists_of_map_ok h
    exact ⟨methods, hmethods⟩
  · rintro ⟨methods, hmethods⟩
    exact ⟨{ a with methods }, by rw [hmethods]; rfl⟩

/-- Two modules are the same but for the imports of their methods, which are in the second what the
rows make of those in the first. -/
structure BoundFrom (a : Assembly) (tables : TableStream) (strings : StringHeap) (b : Assembly) :
    Prop where
  same : b = { a with methods := b.methods }
  size_eq : b.methods.size = a.methods.size
  method : ∀ i (m : Method), a.methods[i]? = some m →
    ∃ imported, b.methods[i]? = some { m with imported } ∧
      ImportOf tables strings m.imported (lastAbout i (importRows tables)) imported

theorem boundFrom_of_bindImports {a b : Assembly} (h : a.bindImports tables strings = .ok b) :
    a.BoundFrom tables strings b := by
  obtain ⟨methods, rfl, hkept⟩ := bindImports_keeps (g := (·.token)) (fun _ _ => rfl) h
  have hsize := congrArg Array.size hkept
  rw [Array.size_map, Array.size_map] at hsize
  rw [bindImports_eq] at h
  obtain ⟨found, hfound, hsame⟩ := exists_of_map_ok h
  obtain rfl : found = methods := congrArg Assembly.methods hsame
  exact ⟨rfl, hsize, fun i m hm => getElem?_bindRows hfound hm⟩

/-- In a module that is loaded, no method has an import before the rows are gone through. -/
theorem exists_unbound_of_loadStructure {blobs : BlobHeap} {a : Assembly}
    (h : loadStructure tables strings blobs = .ok a) :
    ∃ c : Assembly, c.bindImports tables strings = .ok a ∧ ∀ m ∈ c.methods, m.imported = none := by
  obtain ⟨b, c, -, hmethods, hassigned, hbound⟩ := exists_of_loadStructure h
  have hkept := assignMethods_keeps (g := (·.imported)) (fun _ _ => rfl) hassigned
  refine ⟨c, hbound, fun m hm => ?_⟩
  have hmem : m.imported ∈ c.methods.map (·.imported) := Array.mem_map_of_mem hm
  rw [hkept] at hmem
  obtain ⟨n, hn, hsame⟩ := Array.mem_map.1 hmem
  rw [← hsame]
  exact (fresh_of_readMethods hmethods n hn).2.1

/-- Attaching attributes leaves the imports alone. -/
theorem imported_attachAttributes {a : Assembly} (uses : List AttributeUse) {i : Nat} {m : Method}
    (hm : (a.attachAttributes uses).methods[i]? = some m) :
    ∃ n, a.methods[i]? = some n ∧ m.imported = n.imported := by
  unfold attachAttributes at hm
  dsimp only at hm
  rw [getElem?_foldl_apply] at hm
  obtain ⟨n, hn, rfl⟩ := Option.map_eq_some_iff.1 hm
  exact ⟨n, hn, rfl⟩

/-- **Imports are bound row by row.** For all rows of native functions and of native modules,
binding succeeds exactly if every row can be read and every row about a method leads to a method of
the module, to a row of native modules and to two texts of the heap; of a row about anything else
nothing more is asked. All rows of native functions can be read, and those of native modules that
the table has. Binding then changes the imports of methods and nothing else, and the import of a
method is that of the last row about it, or the one that it had before if there is no such row. In a
module that is loaded it had none. -/
theorem imports_are_bound (a : Assembly) (tables : TableStream) (strings : StringHeap) :
    ((∃ b, a.bindImports tables strings = .ok b) ↔
      ∀ row? ∈ importRows tables, Bindable tables strings a.methods.size row?) ∧
    (∀ row? ∈ importRows tables, ∃ row, row? = .ok row) ∧
    (∀ table, tables.table ModuleRefRow = some table → ∀ number,
      (∃ native, table.get number = .ok native) ↔ 1 ≤ number ∧ number ≤ table.rowCount) ∧
    (∀ b, a.bindImports tables strings = .ok b → a.BoundFrom tables strings b) ∧
    ∀ streams (b : Assembly) events, streams.tables = some tables → streams.strings = some strings →
      ofStreams streams = .ok (b, events) →
      (∀ row? ∈ importRows tables, Bindable tables strings b.methods.size row?) ∧
      ∀ i (m : Method), b.methods[i]? = some m →
        ImportOf tables strings none (lastAbout i (importRows tables)) m.imported := by
  refine ⟨exists_bindImports_iff, fun _ => exists_of_mem_importRows,
    fun _ htable _ => exists_get_moduleRef_iff htable, fun b => boundFrom_of_bindImports, ?_⟩
  intro streams b events htables hstrings h
  obtain ⟨report, hends⟩ := ofStreams_of_some htables hstrings
  obtain ⟨loaded, hloaded, hb⟩ := exists_of_map_ok (hends.symm.trans h)
  obtain rfl := (Prod.mk.inj hb).1
  obtain ⟨c, hbinds, hnone⟩ := exists_unbound_of_loadStructure hloaded
  have hbound := boundFrom_of_bindImports hbinds
  have hcount := congrArg Array.size
    (attachAttributes_keeps loaded (loaded.attributeUses tables strings))
  rw [Array.size_map, Array.size_map] at hcount
  refine ⟨?_, fun i m hm => ?_⟩
  · rw [hcount, hbound.size_eq]
    exact exists_bindImports_iff.1 ⟨loaded, hbinds⟩
  · obtain ⟨n, hn, himported⟩ := imported_attachAttributes _ hm
    have hi : i < c.methods.size := hbound.size_eq ▸ (Array.getElem?_eq_some_iff.1 hn).1
    obtain ⟨imported, hafter, himport⟩ := hbound.method i _ (Array.getElem?_eq_getElem hi)
    rw [hnone _ (Array.getElem_mem hi)] at himport
    obtain rfl := Option.some.inj (hn.symm.trans hafter)
    rw [himported]
    exact himport

/-- The streams of a module with two methods. Of three imports the first and the last are about the
first method, and the second is about a field; no text and no module is where it points to. -/
def importStreams : MetadataStreams where
  tables := (TableStream.read <| Bytes.ofList <|
    [0, 0, 0, 0, 2, 0, 0, 1] ++ ofNatLE 8 0x14000041 ++ ofNatLE 8 0 ++
    -- The numbers of modules, methods, native modules and imports.
    [1, 2, 2, 3].flatMap (ofNatLE 4) ++
    [0, 1, 0, 0, 0].flatMap (ofNatLE 2) ++
    [0, 0, 0, 0, 5, 0, 1, 0, 0, 0, 0, 7, 0, 1].flatMap (ofNatLE 2) ++
    [1, 3].flatMap (ofNatLE 2) ++
    [0, 1 * 2 + 1, 5, 1, 0, 9 * 2, 99, 99, 4, 1 * 2 + 1, 7, 2].flatMap (ofNatLE 2)).toOption
  strings := (StringHeap.ofBytes "\x00m\x00n\x00f\x00g\x00".toUTF8).toOption
  blobs := none

/-- The first method has the import of the last row, and the second one has none. -/
theorem imports_are_bound_last :
    ∃ tables strings b events, importStreams.tables = some tables ∧
      importStreams.strings = some strings ∧ ofStreams importStreams = .ok (b, events) ∧
      b.methods.toList.map (·.imported) = [some ⟨"n", "g", 4⟩, none] ∧
      (importRows tables).length = 3 ∧
      (∀ row? ∈ importRows tables, Bindable tables strings b.methods.size row?) ∧
      ∀ i (m : Method), b.methods[i]? = some m →
        ImportOf tables strings none (lastAbout i (importRows tables)) m.imported := by
  obtain ⟨⟨b, events⟩, hload, himports⟩ := exists_of_any (x := ofStreams importStreams)
    (p := fun x => decide (x.1.methods.toList.map (·.imported) = [some ⟨"n", "g", 4⟩, none]))
    (by decide +kernel)
  obtain ⟨tables, htables, hrows⟩ := (Option.any_eq_true
    (fun tables => decide ((importRows tables).length = 3)) importStreams.tables).1
    (by decide +kernel)
  obtain ⟨strings, hstrings⟩ := Option.isSome_iff_exists.1
    (show importStreams.strings.isSome by decide +kernel)
  obtain ⟨hrows', hlast⟩ := (imports_are_bound b tables strings).2.2.2.2 importStreams b
    events htables hstrings hload
  exact ⟨tables, strings, b, events, htables, hstrings, hload, of_decide_eq_true himports,
    of_decide_eq_true hrows, hrows', hlast⟩

end Assembly

end InteropTables
