import InteropTables.Proofs.Assembly.Imports
import InteropTables.Proofs.Metadata.Pointers

/-!
# Methods listed through pointers

A module may list its methods through a table of pointers. A run of such a list is what the pointers
in it name, in their order; a pointer that names no method ends the loading, and one that no type
reaches may hold anything. All else is loaded as it would be without the table, though it stands
elsewhere in the stream.

* `methodLists_eq_ok_iff`: **the lists of runs whose places name known rows**;
* `loadParts`, `exists_loadStructure_iff`: **a module is loaded if its parts are, its lists can be
  cut and its imports bound**;
* `SameButPointers`, `loadParts_congr`, `attributeUses_congr`: what is read of the same rows;
* `Pointed.exists_ofStreams_iff`, `Pointed.ofStreams_eq`: with pointers and without;
* `methods_through_pointers`: **all of this.**
-/

namespace InteropTables

open TableStream

/-! ## 1. Lists of runs -/

/-- The places of runs lie in the list. -/
theorem place_of_mem_methodRuns {length : Nat} {starts : List Nat} :
    ∀ run ∈ methodRuns length starts, ∀ i ∈ run, 1 ≤ i ∧ i ≤ length := by
  induction starts with
  | nil => exact List.forall_mem_nil _
  | cons start starts ih =>
    rw [methodRuns_cons]
    refine List.forall_mem_cons.2 ⟨fun i hi => ?_, ih⟩
    obtain ⟨hstart, hle, -, hlast⟩ := mem_methodRun.1 hi
    omega

section Lists

variable {list : MethodList} {rowAt : Nat → Nat}

/-- What the places of one run name. -/
theorem names_eq (hat : ∀ i, 1 ≤ i → i ≤ list.length → list.methodAt i = .ok (rowAt i))
    {methodCount : Nat} {run found : List Nat} (hplace : ∀ i ∈ run, 1 ≤ i ∧ i ≤ list.length)
    (h : List.Forall₂ (list.Names methodCount) run found) :
    (∀ i ∈ run, 1 ≤ rowAt i ∧ rowAt i ≤ methodCount) ∧ found = run.map fun i => rowAt i - 1 := by
  induction h with
  | nil => exact ⟨List.forall_mem_nil _, rfl⟩
  | @cons i index run found hi _ ih =>
    obtain ⟨⟨hfirst, hlast⟩, hplace⟩ := List.forall_mem_cons.1 hplace
    have hrow : rowAt i = index + 1 := Except.ok.inj ((hat i hfirst hlast).symm.trans hi.1)
    have hlt := hi.2
    obtain ⟨hexist, rfl⟩ := ih hplace
    refine ⟨List.forall_mem_cons.2 ⟨by omega, hexist⟩, ?_⟩
    rw [List.map_cons, hrow, Nat.add_sub_cancel]

/-- **The lists of runs whose places name known rows**: they can be cut exactly if all these rows
exist, and hold the rows in the order of the places. -/
theorem methodLists_eq_ok_iff
    (hat : ∀ i, 1 ≤ i → i ≤ list.length → list.methodAt i = .ok (rowAt i)) {methodCount : Nat}
    {starts : List Nat} {lists : List (List Nat)} :
    methodLists list methodCount starts = .ok lists ↔
      (∀ run ∈ methodRuns list.length starts, ∀ i ∈ run, 1 ≤ rowAt i ∧ rowAt i ≤ methodCount) ∧
      lists = (methodRuns list.length starts).map fun run => run.map fun i => rowAt i - 1 := by
  have hplace := @place_of_mem_methodRuns list.length starts
  constructor
  · intro h
    have hnames := forall₂_of_methodLists h
    generalize methodRuns list.length starts = runs at hnames hplace
    clear h
    induction hnames with
    | nil => exact ⟨List.forall_mem_nil _, rfl⟩
    | cons hrun _ ih =>
      obtain ⟨hfirst, hplace⟩ := List.forall_mem_cons.1 hplace
      obtain ⟨hexist, rfl⟩ := names_eq hat hfirst hrun
      obtain ⟨hmore, rfl⟩ := ih hplace
      exact ⟨List.forall_mem_cons.2 ⟨hexist, hmore⟩, rfl⟩
  · rintro ⟨hexist, rfl⟩
    have hlisted : ∀ run ∈ methodRuns list.length starts, ∀ number,
        run.mapM (listedMethod list methodCount number) = .ok (run.map fun i => rowAt i - 1) := by
      refine fun run hrun number => mapM_ok fun i hi => ?_
      obtain ⟨hfirst, hlast⟩ := hplace run hrun i hi
      unfold listedMethod
      rw [hat i hfirst hlast, bind_ok, if_pos (hexist run hrun i hi)]
      rfl
    unfold methodLists
    refine (mapM_ok (g := fun run => run.1.map fun i => rowAt i - 1) ?_).trans ?_
    · rintro ⟨run, i⟩ hmem
      exact hlisted run (List.fst_mem_of_mem_zipIdx hmem) (i + 1)
    · conv_rhs => rw [← List.zipIdx_map_fst 0 (methodRuns list.length starts), List.map_map]
      rfl

end Lists

/-- Where the places are the rows themselves, all runs are cut. -/
theorem methodLists_direct (methodCount : Nat) (starts : List Nat) :
    methodLists (.direct methodCount) methodCount starts
      = .ok ((methodRuns methodCount starts).map fun run => run.map fun i => i - 1) := by
  have hat : ∀ i, 1 ≤ i → i ≤ (MethodList.direct methodCount).length →
      (MethodList.direct methodCount).methodAt i = .ok i := fun _ _ _ => rfl
  exact (methodLists_eq_ok_iff hat).2 ⟨place_of_mem_methodRuns, rfl⟩

/-! ## 2. Loading in steps -/

namespace Assembly

variable {tables : TableStream} {strings : StringHeap} {blobs : BlobHeap}

/-- The parts of a module, before types and methods know each other. -/
def loadParts (tables : TableStream) (strings : StringHeap) (blobs : BlobHeap) :
    Except Fault Assembly := do
  let identity ← readIdentity tables strings
  let references ← readReferences tables strings
  let specifications ← readSpecifications tables blobs
  let types ← readTypes tables strings
  let methods ← readMethods tables strings blobs
  return { identity, types, methods, references, specifications }

theorem loadStructure_eq_bind : loadStructure tables strings blobs = (do
    let a ← loadParts tables strings blobs
    let b ← a.assignMethods tables
    b.bindImports tables strings) := by
  unfold loadStructure loadParts
  simp only [bind_assoc, pure_bind]

/-- The lists of types can be cut. -/
theorem exists_assignMethods_iff {a : Assembly} : (∃ b, a.assignMethods tables = .ok b) ↔
    ∃ rows lists, tables.allRows TypeDefRow = .ok rows ∧
      methodLists (methodList tables) a.methods.size (rows.map (·.methodList)) = .ok lists := by
  constructor
  · rintro ⟨b, h⟩
    obtain ⟨rows, hrows, h⟩ := exists_of_bind_ok h
    obtain ⟨lists, hlists, -⟩ := exists_of_bind_ok h
    exact ⟨rows, lists, hrows, hlists⟩
  · rintro ⟨rows, lists, hrows, hlists⟩
    exact ⟨_, bind_eq_ok hrows (bind_eq_ok hlists rfl)⟩

theorem size_of_assignMethods {a b : Assembly} (h : a.assignMethods tables = .ok b) :
    b.methods.size = a.methods.size := by
  have hkept := congrArg Array.size (assignMethods_keeps (g := (·.token)) (fun _ _ => rfl) h)
  rwa [Array.size_map, Array.size_map] at hkept

/-- **A module is loaded if its parts are, its lists can be cut and its imports bound.** For the
imports only the number of methods matters. -/
theorem exists_loadStructure_iff : (∃ c, loadStructure tables strings blobs = .ok c) ↔
    ∃ a, loadParts tables strings blobs = .ok a ∧ (∃ b, a.assignMethods tables = .ok b) ∧
      ∃ b, a.bindImports tables strings = .ok b := by
  rw [loadStructure_eq_bind]
  constructor
  · rintro ⟨c, h⟩
    obtain ⟨a, ha, h⟩ := exists_of_bind_ok h
    obtain ⟨b, hb, h⟩ := exists_of_bind_ok h
    refine ⟨a, ha, ⟨b, hb⟩, exists_bindImports_iff.2 ?_⟩
    rw [← size_of_assignMethods hb]
    exact exists_bindImports_iff.1 ⟨c, h⟩
  · rintro ⟨a, ha, ⟨b, hb⟩, himports⟩
    have hrows := exists_bindImports_iff.1 himports
    rw [← size_of_assignMethods hb] at hrows
    obtain ⟨c, hc⟩ := exists_bindImports_iff.2 hrows
    exact ⟨c, bind_eq_ok ha (bind_eq_ok hb hc)⟩

/-! ## 3. The same rows but for pointers -/

/-- Two streams with the same rows, whatever pointers they have. -/
structure SameButPointers (s s' : TableStream) : Prop where
  same : ∀ (ρ : Type) [TableRow ρ], TableRow.table ρ ≠ .methodPtr → SameRows ρ s s'
  count : s'.rows .methodDef = s.rows .methodDef

section Same

variable {s s' : TableStream} (h : SameButPointers s s')

include h

theorem loadParts_congr (strings : StringHeap) (blobs : BlobHeap) :
    loadParts s' strings blobs = loadParts s strings blobs := by
  unfold loadParts
  rw [readIdentity_congr (h.same AssemblyRow (by decide)) (h.same ModuleRow (by decide)),
    readReferences_congr (h.same TypeRefRow (by decide)),
    readSpecifications_congr (h.same TypeSpecRow (by decide)),
    readTypes_congr (h.same TypeDefRow (by decide)) (h.same NestedClassRow (by decide)),
    readMethods_congr (h.same MethodDefRow (by decide))]

theorem bindImports_congr_pointers (a : Assembly) (strings : StringHeap) :
    a.bindImports s' strings = a.bindImports s strings :=
  a.bindImports_congr (h.same ImplMapRow (by decide)) (h.same ModuleRefRow (by decide)) strings

theorem resolve_congr_pointers (a : Assembly) :
    a.resolve (s'.table MemberRefRow) = a.resolve (s.table MemberRefRow) := by
  funext strings made
  have hmember : ((s'.table MemberRefRow).bind fun table => (table.get made.row).toOption)
      = (s.table MemberRefRow).bind fun table => (table.get made.row).toOption := by
    rcases h.same MemberRefRow (by decide) with ⟨hs, hs'⟩ | ⟨t, t', hs, hs', -, hget⟩
    · rw [hs, hs']
    · rw [hs, hs', Option.bind_some, Option.bind_some, hget]
  unfold resolve
  rw [hmember]

theorem attributeUses_congr (a : Assembly) (strings : StringHeap) :
    a.attributeUses s' strings = a.attributeUses s strings := by
  have hrows := (h.same CustomAttributeRow (by decide)).rows_eq
  unfold attributeUses attributeUse
  simp only [hrows, resolve_congr_pointers h]

end Same

/-- Tables that give the same module up to its attributes, and the same attributes, give the same
module and the same report. -/
theorem ofStreams_congr {s s' : TableStream} (strings? : Option StringHeap)
    (blobs? : Option BlobHeap)
    (hload : ∀ strings blobs, loadStructure s' strings blobs = loadStructure s strings blobs)
    (huses : ∀ (a : Assembly) strings, a.attributeUses s' strings = a.attributeUses s strings) :
    ofStreams ⟨some s', strings?, blobs?⟩ = ofStreams ⟨some s, strings?, blobs?⟩ := by
  unfold ofStreams
  cases strings? with
  | none => rfl
  | some strings =>
    dsimp only
    rw [hload]
    simp only [huses]

/-- With tables and strings, a module is loaded if it is up to its attributes. -/
theorem exists_ofStreams_iff {s : TableStream} {strings? : Option StringHeap}
    {blobs? : Option BlobHeap} :
    (∃ a events, ofStreams ⟨some s, strings?, blobs?⟩ = .ok (a, events)) ↔
      ∃ strings, strings? = some strings ∧
        ∃ c, loadStructure s strings (blobs?.getD .nothing) = .ok c := by
  cases strings? with
  | none =>
    constructor
    · rintro ⟨a, events, h⟩
      cases h
    · rintro ⟨strings, h, -⟩
      cases h
  | some strings =>
    have htables : (MetadataStreams.mk (some s) (some strings) blobs?).tables = some s := rfl
    obtain ⟨report, hends⟩ := ofStreams_of_some htables rfl
    rw [hends]
    constructor
    · rintro ⟨a, events, h⟩
      obtain ⟨c, hc, -⟩ := exists_of_map_ok h
      exact ⟨strings, rfl, c, hc⟩
    · rintro ⟨found, hfound, c, hc⟩
      obtain rfl := Option.some.inj hfound
      dsimp only
      rw [hc]
      exact ⟨_, _, rfl⟩

end Assembly

/-! ## 4. With pointers and without -/

namespace Pointed

open Assembly

variable {h : TableHeader} {extra body : List UInt8} {pointers : List Nat}
  (hp : Pointed h extra body pointers)

/-- The entry of a column of pointers at a place that counts from one. -/
def entry (pointers : List Nat) (i : Nat) : Nat :=
  pointers[i - 1]?.getD 0

/-- Every pointer that the run of a type reaches is the number of a method. -/
def ReachesMethods (tables : TableStream) (pointers : List Nat) (rows : List TypeDefRow) : Prop :=
  ∀ run ∈ methodRuns pointers.length (rows.map (·.methodList)), ∀ i ∈ run,
    1 ≤ entry pointers i ∧ entry pointers i ≤ tables.rows .methodDef

include hp

theorem sameButPointers :
    SameButPointers (h.laid extra body) (stream h extra body pointers) :=
  ⟨fun _ _ hρ => hp.sameRows hρ, rows_stream⟩

/-- The list of a module with pointers. -/
theorem exists_methodList (hsome : pointers ≠ []) :
    (methodList (stream h extra body pointers)).length = pointers.length ∧
    ∀ i, 1 ≤ i → i ≤ pointers.length →
      (methodList (stream h extra body pointers)).methodAt i = .ok (entry pointers i) := by
  obtain ⟨table, htable, hcount, hget⟩ := hp.exists_pointers hsome
  have hlist : methodList (stream h extra body pointers) = .indirect table := by
    unfold methodList
    rw [htable]
  rw [hlist]
  refine ⟨hcount, fun i hfirst hlast => ?_⟩
  have hlt : i - 1 < pointers.length := by omega
  have hrow := hget (i - 1) _ (List.getElem?_eq_getElem hlt)
  rw [Nat.sub_add_cancel hfirst] at hrow
  show (table.get i).map _ = _
  rw [hrow, entry, List.getElem?_eq_getElem hlt]
  rfl

/-- The list of a module without pointers is the table of methods itself. -/
theorem methodList_laid :
    methodList (h.laid extra body) = .direct ((h.laid extra body).rows .methodDef) := by
  unfold methodList
  rw [hp.table_none]

/-- All methods of a module are read. -/
theorem size_loadParts {strings : StringHeap} {blobs : BlobHeap} {a : Assembly}
    (ha : loadParts (h.laid extra body) strings blobs = .ok a) :
    a.methods.size = (h.laid extra body).rows .methodDef := by
  unfold loadParts at ha
  obtain ⟨identity, -, ha⟩ := exists_of_bind_ok ha
  obtain ⟨references, -, ha⟩ := exists_of_bind_ok ha
  obtain ⟨specifications, -, ha⟩ := exists_of_bind_ok ha
  obtain ⟨types, -, ha⟩ := exists_of_bind_ok ha
  obtain ⟨methods, hmethods, ha⟩ := exists_of_bind_ok ha
  obtain rfl := Except.ok.inj ha
  obtain ⟨found, hfound, hmethods⟩ := exists_of_bind_ok hmethods
  obtain rfl := Except.ok.inj hmethods
  have hlength : (((h.laid extra body).table MethodDefRow).elim [] Table.rows).length
      = ((h.laid extra body).table MethodDefRow).elim 0 Table.rowCount := by
    cases (h.laid extra body).table MethodDefRow with
    | none => rfl
    | some table => exact table.length_rows
  show found.toArray.size = _
  rw [List.size_toArray, length_of_mapM_ok hfound, hlength, hp.rowCount_laid]
  rfl

/-- The lists of a module without pointers can be cut whenever its types can be read. -/
theorem exists_assignMethods_laid {a : Assembly}
    (hsize : a.methods.size = (h.laid extra body).rows .methodDef) :
    (∃ b, a.assignMethods (h.laid extra body) = .ok b) ↔
      ∃ rows, (h.laid extra body).allRows TypeDefRow = .ok rows := by
  rw [exists_assignMethods_iff, hp.methodList_laid, hsize]
  constructor
  · rintro ⟨rows, _, hrows, -⟩
    exact ⟨rows, hrows⟩
  · rintro ⟨rows, hrows⟩
    exact ⟨rows, _, hrows, methodLists_direct ..⟩

/-- Those of a module with pointers can be cut if the pointers that are reached name methods. -/
theorem exists_assignMethods_stream (hsome : pointers ≠ []) {a : Assembly}
    (hsize : a.methods.size = (h.laid extra body).rows .methodDef) :
    (∃ b, a.assignMethods (stream h extra body pointers) = .ok b) ↔
      ∃ rows, (h.laid extra body).allRows TypeDefRow = .ok rows ∧
        ReachesMethods (h.laid extra body) pointers rows := by
  obtain ⟨hlength, hat⟩ := hp.exists_methodList hsome
  rw [← hlength] at hat
  rw [exists_assignMethods_iff, hsize,
    (hp.sameButPointers.same TypeDefRow (by decide)).allRows_eq]
  simp only [methodLists_eq_ok_iff hat, hlength]
  constructor
  · rintro ⟨rows, _, hrows, hreach, -⟩
    exact ⟨rows, hrows, hreach⟩
  · rintro ⟨rows, hrows, hreach⟩
    exact ⟨rows, _, hrows, hreach, rfl⟩

/-- **A module with pointers is loaded exactly if it is loaded without them, and the pointers that
are reached name methods.** -/
theorem exists_loadStructure_stream (hsome : pointers ≠ []) (strings : StringHeap)
    (blobs : BlobHeap) :
    (∃ c, loadStructure (stream h extra body pointers) strings blobs = .ok c) ↔
      (∃ c, loadStructure (h.laid extra body) strings blobs = .ok c) ∧
      ∀ rows, (h.laid extra body).allRows TypeDefRow = .ok rows →
        ReachesMethods (h.laid extra body) pointers rows := by
  rw [exists_loadStructure_iff, exists_loadStructure_iff]
  simp only [loadParts_congr hp.sameButPointers, bindImports_congr_pointers hp.sameButPointers]
  constructor
  · rintro ⟨a, ha, hassigned, himports⟩
    have hsize := hp.size_loadParts ha
    obtain ⟨rows, hrows, hreach⟩ := (hp.exists_assignMethods_stream hsome hsize).1 hassigned
    refine ⟨⟨a, ha, (hp.exists_assignMethods_laid hsize).2 ⟨rows, hrows⟩, himports⟩, ?_⟩
    intro rows' hrows'
    obtain rfl := Except.ok.inj (hrows.symm.trans hrows')
    exact hreach
  · rintro ⟨⟨a, ha, hassigned, himports⟩, hreach⟩
    have hsize := hp.size_loadParts ha
    obtain ⟨rows, hrows⟩ := (hp.exists_assignMethods_laid hsize).1 hassigned
    exact ⟨a, ha, (hp.exists_assignMethods_stream hsome hsize).2 ⟨rows, hrows, hreach rows hrows⟩,
      himports⟩

/-- **The lists of a module with pointers.** -/
theorem lists_of_ofStreams (hsome : pointers ≠ []) {strings : Option StringHeap}
    {blobs : Option BlobHeap} {a : Assembly} {events : List Event}
    (hload : ofStreams ⟨some (stream h extra body pointers), strings, blobs⟩ = .ok (a, events))
    {rows : List TypeDefRow} (hrows : (h.laid extra body).allRows TypeDefRow = .ok rows) :
    a.types.toList.map (·.methods)
      = (methodRuns pointers.length (rows.map (·.methodList))).map fun run =>
          run.map fun i => entry pointers i - 1 := by
  obtain ⟨hlength, hat⟩ := hp.exists_methodList hsome
  rw [← hlength] at hat
  obtain ⟨tables, rows', lists, htables, hassigned⟩ := exists_assigned hload
  obtain rfl := Option.some.inj htables
  have hread := hassigned.read
  rw [(hp.sameButPointers.same TypeDefRow (by decide)).allRows_eq] at hread
  obtain rfl := Except.ok.inj (hrows.symm.trans hread)
  rw [hassigned.types, ← hlength]
  exact ((methodLists_eq_ok_iff hat).1 hassigned.cut).2

/-- Pointers that name every method in order cut the same lists as no pointers at all. -/
theorem methodLists_eq (hsame : pointers = [] ∨
      pointers = List.range' 1 ((h.laid extra body).rows .methodDef)) (starts : List Nat) :
    methodLists (methodList (stream h extra body pointers)) ((h.laid extra body).rows .methodDef)
        starts
      = methodLists (methodList (h.laid extra body)) ((h.laid extra body).rows .methodDef)
          starts := by
  rw [hp.methodList_laid, methodLists_direct]
  by_cases hnone : pointers = []
  · have hlist : methodList (stream h extra body pointers)
        = .direct ((h.laid extra body).rows .methodDef) := by
      unfold methodList
      rw [hp.table_nil hnone, rows_stream]
    rw [hlist, methodLists_direct]
  · have hrange := hsame.resolve_left hnone
    have hcount : pointers.length = (h.laid extra body).rows .methodDef := by
      rw [hrange, List.length_range']
    obtain ⟨hlength, hat⟩ := hp.exists_methodList hnone
    have hentry : ∀ i, 1 ≤ i → i ≤ pointers.length → entry pointers i = i := by
      intro i hfirst hlast
      have hlt : i - 1 < (h.laid extra body).rows .methodDef := by omega
      rw [entry, hrange, List.getElem?_range' hlt]
      show 1 + 1 * (i - 1) = i
      omega
    have hat : ∀ i, 1 ≤ i → i ≤ (methodList (stream h extra body pointers)).length →
        (methodList (stream h extra body pointers)).methodAt i = .ok i := by
      intro i hfirst hlast
      rw [hlength] at hlast
      rw [hat i hfirst hlast, hentry i hfirst hlast]
    refine (methodLists_eq_ok_iff hat).2 ⟨?_, by rw [hlength, hcount]⟩
    rw [hlength, hcount]
    exact place_of_mem_methodRuns

/-- **A module whose pointers name every method in order is loaded as without them.** -/
theorem ofStreams_eq (hsame : pointers = [] ∨
      pointers = List.range' 1 ((h.laid extra body).rows .methodDef))
    (strings : Option StringHeap) (blobs : Option BlobHeap) :
    ofStreams ⟨some (stream h extra body pointers), strings, blobs⟩
      = ofStreams ⟨some (h.laid extra body), strings, blobs⟩ := by
  refine ofStreams_congr strings blobs (fun strings blobs => ?_)
    fun a strings => attributeUses_congr hp.sameButPointers a strings
  rw [loadStructure_eq_bind, loadStructure_eq_bind, loadParts_congr hp.sameButPointers]
  cases ha : loadParts (h.laid extra body) strings blobs with
  | error e => rw [bind_error, bind_error]
  | ok a =>
    have hassign : a.assignMethods (stream h extra body pointers)
        = a.assignMethods (h.laid extra body) := by
      unfold assignMethods
      rw [(hp.sameButPointers.same TypeDefRow (by decide)).allRows_eq]
      simp only [hp.size_loadParts ha, hp.methodLists_eq hsame]
    rw [bind_ok, bind_ok, hassign]
    simp only [bindImports_congr_pointers hp.sameButPointers]

end Pointed

/-! ## 5. Modules with pointers -/

open InteropTables.Pointed Assembly

/-- **A module that lists its methods through pointers.** Into the rows of any module without
pointers to methods, any column of them is put. All pointers are read back, and the tables behind
them are found where they stand now. The module is loaded exactly if it is loaded without them and
every pointer that the run of a type reaches is the number of a method; each type then lists what
the pointers in its run name, in their order, where a run ends at the last pointer. One pointer that
is reached and is zero, or too large, is enough for the module to be refused. And pointers that name
all methods in order change nothing, neither the module nor the report; nor does a table without
rows. -/
theorem methods_through_pointers {h : TableHeader} {extra body : List UInt8} {pointers : List Nat}
    (hp : Pointed h extra body pointers) (strings : Option StringHeap) (blobs : Option BlobHeap) :
    let direct : MetadataStreams :=
      ⟨(TableStream.read (Bytes.ofList (h.bytes ++ (extra ++ body)))).toOption, strings, blobs⟩
    let pointed : MetadataStreams :=
      ⟨(TableStream.read (Bytes.ofList (Pointed.bytes h extra body pointers))).toOption, strings,
        blobs⟩
    ∃ tables, direct.tables = some tables ∧
      (pointers ≠ [] →
        ((∃ a events, ofStreams pointed = .ok (a, events)) ↔
          (∃ a events, ofStreams direct = .ok (a, events)) ∧
          ∀ rows, tables.allRows TypeDefRow = .ok rows → ReachesMethods tables pointers rows) ∧
        ∀ rows, tables.allRows TypeDefRow = .ok rows →
          (∀ a events, ofStreams pointed = .ok (a, events) → a.types.toList.map (·.methods)
            = (methodRuns pointers.length (rows.map (·.methodList))).map fun run =>
                run.map fun i => entry pointers i - 1) ∧
          ∀ run ∈ methodRuns pointers.length (rows.map (·.methodList)), ∀ i ∈ run,
            entry pointers i = 0 ∨ tables.rows .methodDef < entry pointers i →
              ∃ e, ofStreams pointed = .error e) ∧
      (pointers = [] ∨ pointers = List.range' 1 (tables.rows .methodDef) →
        ofStreams pointed = ofStreams direct) := by
  intro direct pointed
  have hdirect : direct = ⟨some (h.laid extra body), strings, blobs⟩ := by
    show MetadataStreams.mk _ _ _ = _
    rw [TableHeader.read_laid hp.valid_ne hp.extra_length hp.fits]
    rfl
  have hpointed : pointed = ⟨some (stream h extra body pointers), strings, blobs⟩ := by
    show MetadataStreams.mk _ _ _ = _
    rw [hp.read_stream]
    rfl
  rw [hdirect, hpointed]
  refine ⟨h.laid extra body, rfl, fun hsome => ?_, fun hsame => hp.ofStreams_eq hsame ..⟩
  have hiff : (∃ a events, ofStreams ⟨some (stream h extra body pointers), strings, blobs⟩
        = .ok (a, events)) ↔
      (∃ a events, ofStreams ⟨some (h.laid extra body), strings, blobs⟩ = .ok (a, events)) ∧
      ∀ rows, (h.laid extra body).allRows TypeDefRow = .ok rows →
        ReachesMethods (h.laid extra body) pointers rows := by
    rw [exists_ofStreams_iff, exists_ofStreams_iff]
    constructor
    · rintro ⟨found, hfound, hload⟩
      obtain ⟨hplain, hreach⟩ := (hp.exists_loadStructure_stream hsome found _).1 hload
      exact ⟨⟨found, hfound, hplain⟩, hreach⟩
    · rintro ⟨⟨found, hfound, hplain⟩, hreach⟩
      exact ⟨found, hfound, (hp.exists_loadStructure_stream hsome found _).2 ⟨hplain, hreach⟩⟩
  refine ⟨hiff, fun rows hrows => ⟨fun a events hload => hp.lists_of_ofStreams hsome hload hrows,
    fun run hrun i hi hbad => ?_⟩⟩
  cases hload : ofStreams ⟨some (stream h extra body pointers), strings, blobs⟩ with
  | error e => exact ⟨e, rfl⟩
  | ok loaded =>
    have hexists := (hiff.1 ⟨loaded.1, loaded.2, hload⟩).2 rows hrows run hrun i hi
    omega

/-- The header of a module with two types and two methods. -/
def pairHeader : TableHeader where
  reserved := 0
  majorVersion := 2
  minorVersion := 0
  heapFlags := 0
  filler := 1
  valid := 0x45
  sorted := 0
  counts n := if n = 0 then 1 else 2

/-- Its rows: the module, the types, each of which lists one method, and the methods. -/
def pairRows : List UInt8 :=
  [0, 1, 0, 0, 0, 0, 0, 1, 0, 0, 1, 1, 0, 0, 1, 0, 0, 1, 2, 0, 0, 0, 0, 1, 0, 1, 0, 0, 0, 0, 1, 0,
    1].flatMap (ofNatLE 2)

/-- Its texts. -/
def pairTexts : Option StringHeap :=
  some ⟨Bytes.ofList [0, 0x66, 0]⟩

/-- The module without pointers. -/
def pairDirect : MetadataStreams where
  tables := (TableStream.read (Bytes.ofList (pairHeader.bytes ++ ([] ++ pairRows)))).toOption
  strings := pairTexts
  blobs := none

/-- The module with pointers. -/
def pairPointed (pointers : List Nat) : MetadataStreams where
  tables :=
    (TableStream.read (Bytes.ofList (Pointed.bytes pairHeader [] pairRows pointers))).toOption
  strings := pairTexts
  blobs := none

theorem pointed_pair {pointers : List Nat} (hcount : pointers.length < wordCount 4)
    (hentries : ∀ p ∈ pointers, p < wordCount 2) : Pointed pairHeader [] pairRows pointers :=
  ⟨by decide, by decide, rfl, by decide, hcount, hentries⟩

theorem exists_pairRows {tables : TableStream} (h : pairDirect.tables = some tables) :
    ∃ rows, tables.allRows TypeDefRow = .ok rows ∧ rows.map (·.methodList) = [1, 2] ∧
      tables.rows .methodDef = 2 := by
  have hany : (pairDirect.tables.any fun tables => (tables.allRows TypeDefRow).toOption.any
      fun rows => decide (rows.map (·.methodList) = [1, 2] ∧ tables.rows .methodDef = 2))
        = true := by
    decide +kernel
  rw [h] at hany
  obtain ⟨rows, hrows, hstarts⟩ := exists_of_any hany
  exact ⟨rows, hrows, of_decide_eq_true hstarts⟩

/-- Two pointers the other way round: each type lists the method of the other. With a pointer to no
method the module is refused, and pointers to both methods in order change nothing. -/
theorem methods_through_pointers_swapped :
    Pointed pairHeader [] pairRows [2, 1] ∧ Pointed pairHeader [] pairRows [2, 0] ∧
    Pointed pairHeader [] pairRows [1, 2] ∧
    (∃ a events, ofStreams pairDirect = .ok (a, events) ∧
      ofStreams (pairPointed [1, 2]) = .ok (a, events)) ∧
    (∃ a events, ofStreams (pairPointed [2, 1]) = .ok (a, events) ∧
      a.types.toList.map (·.methods) = [[1], [0]]) ∧
    ∃ e, ofStreams (pairPointed [2, 0]) = .error e := by
  have hswapped : Pointed pairHeader [] pairRows [2, 1] := pointed_pair (by decide) (by decide)
  have hbroken : Pointed pairHeader [] pairRows [2, 0] := pointed_pair (by decide) (by decide)
  have hsame : Pointed pairHeader [] pairRows [1, 2] := pointed_pair (by decide) (by decide)
  obtain ⟨⟨a, events⟩, hload, -⟩ := exists_of_any (x := ofStreams pairDirect) (p := fun _ => true)
    (by decide +kernel)
  refine ⟨hswapped, hbroken, hsame, ⟨a, events, hload, ?_⟩, ?_, ?_⟩
  · obtain ⟨tables, htables, -, hequal⟩ := methods_through_pointers hsame pairTexts none
    obtain ⟨-, -, -, hcount⟩ := exists_pairRows htables
    exact (hequal (.inr (by rw [hcount]; rfl))).trans hload
  · obtain ⟨tables, htables, hpointers, -⟩ := methods_through_pointers hswapped pairTexts none
    obtain ⟨rows, hrows, hstarts, hcount⟩ := exists_pairRows htables
    obtain ⟨hiff, hlists⟩ := hpointers (List.cons_ne_nil 2 [1])
    have hreach : ∀ rows', tables.allRows TypeDefRow = .ok rows' →
        ReachesMethods tables [2, 1] rows' := by
      intro rows' hrows'
      obtain rfl := Except.ok.inj (hrows.symm.trans hrows')
      unfold ReachesMethods
      rw [hstarts, hcount]
      decide
    obtain ⟨b, report, hb⟩ := hiff.2 ⟨⟨a, events, hload⟩, hreach⟩
    refine ⟨b, report, hb, ?_⟩
    rw [(hlists rows hrows).1 b report hb, hstarts]
    rfl
  · obtain ⟨tables, htables, hpointers, -⟩ := methods_through_pointers hbroken pairTexts none
    obtain ⟨rows, hrows, hstarts, hcount⟩ := exists_pairRows htables
    refine ((hpointers (List.cons_ne_nil 2 [0])).2 rows hrows).2 [2] ?_ 2 ?_ (.inl rfl)
    · rw [hstarts]
      decide
    · exact List.mem_singleton_self 2

end InteropTables
