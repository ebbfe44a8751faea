import InteropTables.Proofs.Generation.Ends
import InteropTables.Proofs.Interop.ReadDeclarations
import InteropTables.Proofs.Machine.Scan

/-!
# Calls that add nothing to the declarations

A call into a native module that is not asked for is passed over, and so is a call behind others
that say all that it says. The second is because calls are put in order without changing places with
calls of the same function: a repetition comes to stand behind what it repeats, and only the first
of each text is kept.

* `byEntryPoint_filter`, `byEntryPoint_concat`: the order of a part of the calls, and of one more;
* `declarationsText_filter`: **calls into other modules are passed over**;
* `NativeCall.Repeats`: a call says nothing new;
* `declarationsText_concat`, `declarationsText_append`: **one such call, and many, change nothing**;
* `declarations_scanned_again`: **modules scanned again give the same declarations**;
* `redundant_calls`: **all of this about the text.**
-/

namespace InteropTables

variable {calls : List NativeCall} {modules : NativeModules} {call : NativeCall} {module : String}

/-! ## 1. Calls in order -/

theorem byEntryPoint_filter (p : NativeCall → Bool) (calls : List NativeCall) :
    byEntryPoint (calls.filter p) = (byEntryPoint calls).filter p :=
  mergeSort_filter compareNames p calls

/-- One more call at the end is put behind all calls of its function. -/
theorem byEntryPoint_concat (calls : List NativeCall) (call : NativeCall) : ∃ front behind,
    byEntryPoint calls = front ++ behind ∧
    byEntryPoint (calls ++ [call]) = front ++ call :: behind ∧
    ∀ other ∈ calls, other.entryPoint = call.entryPoint → other ∈ front := by
  obtain ⟨front, behind, hcalls, hmore, hfront⟩ := mergeSort_concat compareNames calls call
  refine ⟨front, behind, hcalls, hmore, fun other hother hname => hfront other hother ?_⟩
  change (compare other.entryPoint call.entryPoint).isLE
  rw [hname]
  exact Std.ReflCmp.isLE_rfl

/-! ## 2. Calls into other modules -/

theorem prototypes_filter (calls : List NativeCall) (modules : NativeModules) :
    prototypes (calls.filter fun call => modules.contains call.nativeModule) modules
      = prototypes calls modules := by
  simp only [prototypes, byEntryPoint_filter, List.filter_filter, Bool.and_self]

theorem ofCalls_filter (calls : List NativeCall) (h : module ∈ modules.names) :
    ImportTable.ofCalls (calls.filter fun call => modules.contains call.nativeModule) module
      = ImportTable.ofCalls calls module := by
  have hown : ((byEntryPoint calls).filter fun call => modules.contains call.nativeModule).filter
      (fun call => call.nativeModule == module)
      = (byEntryPoint calls).filter fun call => call.nativeModule == module := by
    rw [List.filter_filter]
    refine List.filter_congr fun call _ => Bool.and_eq_left_iff_imp.2 fun hmodule => ?_
    exact decide_eq_true (eq_of_beq hmodule ▸ h)
  simp only [ImportTable.ofCalls, byEntryPoint_filter, hown]

/-- **Calls into other modules are passed over.** -/
theorem declarationsText_filter (calls : List NativeCall) (modules : NativeModules) :
    declarationsText (calls.filter fun call => modules.contains call.nativeModule) modules
      = declarationsText calls modules :=
  declarationsText_congr (prototypes_filter calls modules) fun _ hm => ofCalls_filter calls hm

/-! ## 3. Calls that repeat others -/

/-- A call says nothing new: its prototype is that of a call into one of the modules, and there is a
call of its function by the same caller. -/
structure NativeCall.Repeats (call : NativeCall) (calls : List NativeCall)
    (modules : NativeModules) : Prop where
  declared : ∃ other ∈ calls, other.nativeModule ∈ modules.names ∧
    other.prototype = call.prototype
  listed : ∃ other ∈ calls, other.nativeModule = call.nativeModule ∧
    other.entryPoint = call.entryPoint ∧ other.method.identity = call.method.identity

theorem NativeCall.Repeats.mono {more : List NativeCall} (h : call.Repeats calls modules) :
    call.Repeats (calls ++ more) modules := by
  obtain ⟨⟨a, ha, hdeclared⟩, ⟨b, hb, hlisted⟩⟩ := h
  exact ⟨⟨a, List.mem_append_left _ ha, hdeclared⟩, ⟨b, List.mem_append_left _ hb, hlisted⟩⟩

theorem NativeCall.repeats_of_mem (hcall : call ∈ calls)
    (hmodule : call.nativeModule ∈ modules.names) : call.Repeats calls modules :=
  ⟨⟨call, hcall, hmodule, rfl⟩, ⟨call, hcall, rfl, rfl, rfl⟩⟩

theorem prototypes_concat (h : call.nativeModule ∈ modules.names → call.Repeats calls modules) :
    prototypes (calls ++ [call]) modules = prototypes calls modules := by
  obtain ⟨front, behind, hcalls, hmore, hfront⟩ := byEntryPoint_concat calls call
  rw [prototypes, prototypes, hcalls, hmore, List.filter_append, List.filter_append,
    List.filter_cons]
  split
  · rename_i hown
    obtain ⟨other, hother, hmodule, htext⟩ := (h (of_decide_eq_true hown)).declared
    have hmem := hfront other hother (NativeCall.entryPoint_eq_of_prototype htext)
    rw [List.map_append, List.map_append, List.map_cons, eraseDups_append_cons_of_mem]
    rw [← htext]
    exact List.mem_map_of_mem (List.mem_filter.2 ⟨hmem, decide_eq_true hmodule⟩)
  · rfl

/-- The entries of a table, made of its calls in order. -/
def entriesOf (own : List NativeCall) : List ImportEntry :=
  (own.map (·.entryPoint)).eraseDups.map fun entryPoint =>
    { entryPoint
      sources := ((own.filter fun call => call.entryPoint == entryPoint).map
        (·.method.identity)).eraseDups }

theorem entries_ofCalls (calls : List NativeCall) (module : String) :
    (ImportTable.ofCalls calls module).entries
      = entriesOf ((byEntryPoint calls).filter fun call => call.nativeModule == module) := rfl

/-- A call of a function by a caller that is listed adds nothing to the entries. -/
theorem entriesOf_repetition {front : List NativeCall} {other : NativeCall} (hother : other ∈ front)
    (hname : other.entryPoint = call.entryPoint)
    (hidentity : other.method.identity = call.method.identity) (behind : List NativeCall) :
    entriesOf (front ++ call :: behind) = entriesOf (front ++ behind) := by
  have hnames : ((front ++ call :: behind).map (·.entryPoint)).eraseDups
      = ((front ++ behind).map (·.entryPoint)).eraseDups := by
    rw [List.map_append, List.map_append, List.map_cons, eraseDups_append_cons_of_mem]
    rw [← hname]
    exact List.mem_map_of_mem hother
  have hsources : ∀ entryPoint : String,
      (((front ++ call :: behind).filter fun call => call.entryPoint == entryPoint).map
        (·.method.identity)).eraseDups
      = (((front ++ behind).filter fun call => call.entryPoint == entryPoint).map
        (·.method.identity)).eraseDups := by
    intro entryPoint
    rw [List.filter_append, List.filter_append, List.filter_cons]
    split
    · rename_i hcall
      rw [List.map_append, List.map_append, List.map_cons, eraseDups_append_cons_of_mem]
      rw [← hidentity]
      exact List.mem_map_of_mem (List.mem_filter.2 ⟨hother, hname ▸ hcall⟩)
    · rfl
  simp only [entriesOf, hnames, hsources]

theorem ofCalls_concat (h : call.nativeModule ∈ modules.names → call.Repeats calls modules)
    (hmodule : module ∈ modules.names) :
    ImportTable.ofCalls (calls ++ [call]) module = ImportTable.ofCalls calls module := by
  suffices hentries : (ImportTable.ofCalls (calls ++ [call]) module).entries
      = (ImportTable.ofCalls calls module).entries by
    exact congrArg (ImportTable.mk module) hentries
  obtain ⟨front, behind, hcalls, hmore, hfront⟩ := byEntryPoint_concat calls call
  rw [entries_ofCalls, entries_ofCalls, hcalls, hmore, List.filter_append, List.filter_append,
    List.filter_cons]
  split
  · rename_i hown
    obtain rfl := eq_of_beq hown
    obtain ⟨other, hother, hsame, hname, hidentity⟩ := (h hmodule).listed
    have hkept : other ∈ front.filter fun other => other.nativeModule == call.nativeModule :=
      List.mem_filter.2 ⟨hfront other hother hname, beq_iff_eq.2 hsame⟩
    exact entriesOf_repetition hkept hname hidentity _
  · rfl

/-- **One more call changes nothing** if it is into another module or says nothing new. -/
theorem declarationsText_concat
    (h : call.nativeModule ∈ modules.names → call.Repeats calls modules) :
    declarationsText (calls ++ [call]) modules = declarationsText calls modules :=
  declarationsText_congr (prototypes_concat h) fun _ hm => ofCalls_concat h hm

/-- **Nor do many of them.** The induction is on these calls; one that is put behind the others
takes no repetition away. -/
theorem declarationsText_append {again : List NativeCall}
    (h : ∀ call ∈ again, call.nativeModule ∈ modules.names → call.Repeats calls modules) :
    declarationsText (calls ++ again) modules = declarationsText calls modules := by
  induction again generalizing calls with
  | nil => rw [List.append_nil]
  | cons call again ih =>
    obtain ⟨hcall, hagain⟩ := List.forall_mem_cons.1 h
    rw [List.append_cons, ih fun other hother hmodule => (hagain other hother hmodule).mono,
      declarationsText_concat hcall]

/-! ## 4. Modules scanned again -/

section Scans

variable {files : Workspace} {paths again : List String} {found : Findings}

/-- Modules that are scanned again give findings that are there already. -/
theorem exists_scanned_again (hagain : again ⊆ paths)
    (h : (scanFiles files paths).result = .ok found) :
    ∃ all more, (scanFiles files (paths ++ again)).result = .ok all ∧
      all.calls = found.calls ++ more ∧ more ⊆ found.calls := by
  obtain ⟨parts, hparts, rfl⟩ := scanFiles_eq_ok_iff.1 h
  have hrepeated : ∃ repeated,
      List.Forall₂ (fun path part => (scanFile files path).result = .ok part) again repeated ∧
        repeated ⊆ parts := by
    clear h
    induction again with
    | nil => exact ⟨[], .nil, List.nil_subset _⟩
    | cons path again ih =>
      obtain ⟨hpath, hmore⟩ := List.cons_subset.1 hagain
      obtain ⟨repeated, hrepeated, hsubset⟩ := ih hmore
      obtain ⟨part, hpart, hscanned⟩ := exists_mem_of_forall₂ hparts path hpath
      exact ⟨part :: repeated, .cons hscanned hrepeated, List.cons_subset.2 ⟨hpart, hsubset⟩⟩
  obtain ⟨repeated, hrepeated, hsubset⟩ := hrepeated
  refine ⟨_, repeated.flatMap (·.calls),
    scanFiles_eq_ok_iff.2 ⟨parts ++ repeated, List.rel_append hparts hrepeated, rfl⟩,
    List.flatMap_append, fun call hcall => ?_⟩
  obtain ⟨part, hpart, hcall⟩ := List.mem_flatMap.1 hcall
  exact List.mem_flatMap.2 ⟨part, hsubset hpart, hcall⟩

/-- A failure is the same with more modules behind. -/
theorem scanFiles_append_of_error {e : Fault} (h : (scanFiles files paths).result = .error e)
    (more : List String) : (scanFiles files (paths ++ more)).result = .error e := by
  rw [result_scanFiles] at h ⊢
  rw [List.mapM_append]
  cases hscanned : paths.mapM fun path => (scanFile files path).result with
  | ok parts =>
    rw [hscanned] at h
    cases h
  | error e' =>
    rw [hscanned] at h
    exact h

/-- **Scanning modules again has the same declarations**, or the same failure. -/
theorem declarations_scanned_again (hagain : again ⊆ paths) (modules : NativeModules) :
    ((scanFiles files (paths ++ again)).result.map fun found =>
        declarationsText found.calls modules)
      = (scanFiles files paths).result.map fun found => declarationsText found.calls modules := by
  cases h : (scanFiles files paths).result with
  | error e => rw [scanFiles_append_of_error h]
  | ok found =>
    obtain ⟨all, more, hall, hcalls, hmore⟩ := exists_scanned_again hagain h
    have htext : declarationsText all.calls modules = declarationsText found.calls modules := by
      rw [hcalls]
      exact declarationsText_append fun call hcall => NativeCall.repeats_of_mem (hmore hcall)
    rw [hall]
    exact congrArg Except.ok htext

end Scans

/-! ## 5. The text -/

/-- **Calls that add nothing to the declarations.** The text is told by the calls into the given
modules, so calls into others may stand anywhere among them. Calls behind the others change nothing
if they say nothing new. So modules that are scanned again give the same text, or the same
failure. -/
theorem redundant_calls (calls : List NativeCall) (modules : NativeModules) :
    (∀ calls', calls'.filter (fun call => modules.contains call.nativeModule)
        = calls.filter (fun call => modules.contains call.nativeModule) →
      declarationsText calls' modules = declarationsText calls modules) ∧
    (∀ again : List NativeCall,
      (∀ call ∈ again, call.nativeModule ∈ modules.names → call.Repeats calls modules) →
      declarationsText (calls ++ again) modules = declarationsText calls modules) ∧
    ∀ (files : Workspace) (paths again : List String), again ⊆ paths →
      ((scanFiles files (paths ++ again)).result.map fun found =>
          declarationsText found.calls modules)
        = (scanFiles files paths).result.map fun found => declarationsText found.calls modules := by
  refine ⟨fun calls' h => ?_, fun again h => declarationsText_append h,
    fun files paths again hagain => declarations_scanned_again hagain modules⟩
  rw [← declarationsText_filter calls', h, declarationsText_filter]

/-- Two callers of functions with marks in their names. -/
def markedCalls : List NativeCall :=
  [.plain "f (g" "c" "First", .plain "f" "c" "Second", .plain "f (g" "c" "Second"]

/-- A call into another module in front, a repetition behind, and a module that is scanned twice. -/
theorem redundant_calls_marked :
    let modules := NativeModules.ofList ["c"]
    let foreign := NativeCall.plain "e" "d" "First"
    let repetition := NativeCall.plain "f (g" "c" "First"
    let files : Workspace := ⟨.folder [("m", .file Machine.smallFile)], []⟩
    declarationsText (foreign :: markedCalls) modules = declarationsText markedCalls modules ∧
    repetition.Repeats markedCalls modules ∧
    declarationsText (markedCalls ++ [repetition]) modules = declarationsText markedCalls modules ∧
    ((scanFiles files ["m", "m"]).result.map fun found => declarationsText found.calls modules)
      = (scanFiles files ["m"]).result.map fun found => declarationsText found.calls modules := by
  intro modules foreign repetition files
  obtain ⟨hforeign, hagain, hscans⟩ := redundant_calls markedCalls modules
  have hrepeats : repetition.Repeats markedCalls modules :=
    NativeCall.repeats_of_mem (by decide) (by decide)
  refine ⟨hforeign _ rfl, hrepeats, hagain [repetition] ?_, hscans files ["m"] ["m"] ?_⟩
  · exact fun call hcall _ => List.mem_singleton.1 hcall ▸ hrepeats
  · exact List.Subset.refl _

end InteropTables
