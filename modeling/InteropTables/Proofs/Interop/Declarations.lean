import InteropTables.Interop.ImportTables
import InteropTables.Proofs.Lists
import InteropTables.Proofs.TextOrder

/-!
# What the declarations declare

Prototypes and tables are made from the same calls by different rules: prototypes are told apart by
their texts, the lines of a table by the names of their functions. Since the name can be read off a
prototype, both name the same functions.

* `NativeCall.toList_prototype`: a prototype is a result type, a name and parameters;
* `Declares`, `declares_prototype_iff`: **a prototype declares one function**;
* `OrderedByName`: the calls by the names of their functions;
* `ImportTable.Lists`: what a table lists of the calls;
* `lists_ofCalls`: **the table of a module lists its calls**;
* `declarationsText_congr`: calls with the same prototypes and tables;
* `declarations_structure`: **the whole text, and that it declares what it refers to.**
-/

namespace InteropTables

/-! ## 1. Prototypes -/

theorem CType.spelling_chars (t : CType) : ' ' ∉ t.spelling.toList ∧ '(' ∉ t.spelling.toList := by
  cases t <;> decide

/-- The characters of joined texts are those of the texts and of what stands between them. -/
theorem not_mem_toList_intercalate {c : Char} {between : String} (hbetween : c ∉ between.toList) :
    ∀ {parts : List String}, (∀ part ∈ parts, c ∉ part.toList) →
      c ∉ (between.intercalate parts).toList
  | [], _ => by simp
  | [part], h => by
    rw [String.intercalate_singleton]
    exact h part (List.mem_singleton_self _)
  | part :: next :: parts, h => by
    rw [String.intercalate_cons_cons, String.toList_append, String.toList_append, List.mem_append,
      List.mem_append, not_or, not_or]
    have hmore := not_mem_toList_intercalate hbetween fun other hother =>
      h other (List.mem_cons_of_mem part hother)
    exact ⟨⟨h part (List.mem_cons_self ..), hbetween⟩, hmore⟩

/-- **A prototype is a result type, a name and parameters.** There is no space in the result type
and no bracket in the parameters. -/
theorem NativeCall.toList_prototype (call : NativeCall) :
    ∃ result parameters : List Char, ' ' ∉ result ∧ '(' ∉ parameters ∧
      call.prototype.toList
        = result ++ ' ' :: (call.entryPoint.toList ++ [' ']) ++ '(' :: parameters := by
  unfold NativeCall.prototype
  split
  · refine ⟨"int".toList, "int, int, int, int, int);".toList, by decide, by decide, ?_⟩
    simp
  · refine ⟨(CType.ofType call.method.result).spelling.toList,
      (",".intercalate (call.method.parameters.map fun t => (CType.ofType t).spelling)).toList
        ++ ");".toList, (CType.spelling_chars _).1, ?_, ?_⟩
    · rw [List.mem_append, not_or]
      refine ⟨not_mem_toList_intercalate (by decide) fun part hpart => ?_, by decide⟩
      obtain ⟨t, -, rfl⟩ := List.mem_map.1 hpart
      exact (CType.spelling_chars _).2
    · simp

/-- The prototypes of two functions are different texts. -/
theorem NativeCall.entryPoint_eq_of_prototype {a b : NativeCall} (h : a.prototype = b.prototype) :
    a.entryPoint = b.entryPoint := by
  obtain ⟨resultA, parametersA, hresultA, hparametersA, ha⟩ := a.toList_prototype
  obtain ⟨resultB, parametersB, hresultB, hparametersB, hb⟩ := b.toList_prototype
  rw [h, hb] at ha
  obtain ⟨hfront, -⟩ := append_cons_inj_of_last hparametersB hparametersA ha
  obtain ⟨-, hname⟩ := append_cons_inj hresultB hresultA hfront
  exact String.toList_inj.1 (List.append_cancel_right hname).symm

/-- A text is a prototype of a function. -/
def Declares (text entryPoint : String) : Prop :=
  ∃ call : NativeCall, call.entryPoint = entryPoint ∧ call.prototype = text

/-- **A prototype declares one function**, that of its call. -/
theorem declares_prototype_iff {call : NativeCall} {entryPoint : String} :
    Declares call.prototype entryPoint ↔ call.entryPoint = entryPoint := by
  constructor
  · rintro ⟨other, rfl, hother⟩
    exact NativeCall.entryPoint_eq_of_prototype hother.symm
  · exact fun h => ⟨call, h, rfl⟩

/-! ## 2. Order -/

/-- The calls stand in the order of the bytes of their function names, calls of one function in the
given order. -/
structure OrderedByName (ordered calls : List NativeCall) : Prop where
  perm : ordered.Perm calls
  ascending : ordered.Pairwise fun a b => ¬ BytesBefore b.entryPoint a.entryPoint
  stable : ∀ entryPoint, ordered.filter (fun call => call.entryPoint == entryPoint)
    = calls.filter fun call => call.entryPoint == entryPoint

/-- The comparison of calls by the names of their functions. -/
def compareNames (a b : NativeCall) : Ordering :=
  compareOn NativeCall.entryPoint a b

instance : Std.TransCmp compareNames :=
  inferInstanceAs (Std.TransCmp (compareOn NativeCall.entryPoint))

variable (calls : List NativeCall)

theorem pairwise_byEntryPoint :
    (byEntryPoint calls).Pairwise fun a b => (compare a.entryPoint b.entryPoint).isLE :=
  pairwise_mergeSort compareNames calls

theorem orderedByName_byEntryPoint : OrderedByName (byEntryPoint calls) calls where
  perm := List.mergeSort_perm ..
  ascending := (pairwise_byEntryPoint calls).imp not_bytesBefore_of_isLE
  stable entryPoint := by
    refine filter_mergeSort compareNames (fun a b ha hb => ?_) calls
    have hsame : a.entryPoint = b.entryPoint := (eq_of_beq ha).trans (eq_of_beq hb).symm
    change (compare a.entryPoint b.entryPoint).isLE
    rw [hsame]
    exact Std.ReflCmp.isLE_rfl

/-! ## 3. Tables -/

variable {calls}

/-- A table lists the functions of the calls into its module, each once and by the bytes of their
names, and for each of them the callers in the order of the calls, each once. -/
structure ImportTable.Lists (t : ImportTable) (calls : List NativeCall) : Prop where
  ascending : (t.entries.map (·.entryPoint)).Pairwise BytesBefore
  entryPoint_iff : ∀ entryPoint, entryPoint ∈ t.entries.map (·.entryPoint) ↔
    ∃ call ∈ calls, call.nativeModule = t.module ∧ call.entryPoint = entryPoint
  sources : ∀ e ∈ t.entries, FirstOccurrences e.sources
    ((calls.filter fun call => call.nativeModule == t.module && call.entryPoint == e.entryPoint).map
      (·.method.identity))

/-- The calls of a function into a module stand in the given order. -/
theorem filter_own (calls : List NativeCall) (module entryPoint : String) :
    ((byEntryPoint calls).filter fun call => call.nativeModule == module).filter
      (fun call => call.entryPoint == entryPoint)
      = calls.filter fun call => call.nativeModule == module && call.entryPoint == entryPoint := by
  rw [List.filter_filter, List.filter_congr fun _ _ => Bool.and_comm _ _, ← List.filter_filter,
    (orderedByName_byEntryPoint calls).stable, List.filter_filter]

/-- **The table of a module lists its calls.** The functions are those of its calls in order, where
they stand in order already; the calls of one function stand in the given order. -/
theorem lists_ofCalls (calls : List NativeCall) (module : String) :
    (ImportTable.ofCalls calls module).Lists calls := by
  have horder := orderedByName_byEntryPoint calls
  have hnames : ((ImportTable.ofCalls calls module).entries.map (·.entryPoint))
      = (((byEntryPoint calls).filter fun call => call.nativeModule == module).map
        (·.entryPoint)).eraseDups := by
    simp only [ImportTable.ofCalls, List.map_map]
    exact List.map_id _
  have honce := firstOccurrences_eraseDups
    (((byEntryPoint calls).filter fun call => call.nativeModule == module).map (·.entryPoint))
  refine ⟨?_, fun entryPoint => ?_, fun e he => ?_⟩
  · have hall : (((byEntryPoint calls).filter fun call => call.nativeModule == module).map
        (·.entryPoint)).Pairwise fun a b => (compare a b).isLE :=
      List.pairwise_map.2 ((pairwise_byEntryPoint calls).filter _)
    rw [hnames]
    exact (honce.pairwise hall).imp fun h => bytesBefore_of_ne h.1 h.2
  · rw [hnames, honce.mem_iff, List.mem_map]
    constructor
    · rintro ⟨call, hcall, hname⟩
      obtain ⟨hcall, hmodule⟩ := List.mem_filter.1 hcall
      exact ⟨call, horder.perm.mem_iff.1 hcall, eq_of_beq hmodule, hname⟩
    · rintro ⟨call, hcall, hmodule, hname⟩
      exact ⟨call, List.mem_filter.2 ⟨horder.perm.mem_iff.2 hcall, beq_iff_eq.2 hmodule⟩, hname⟩
  · obtain ⟨entryPoint, -, rfl⟩ := List.mem_map.1 he
    dsimp only [ImportTable.ofCalls]
    rw [filter_own]
    exact firstOccurrences_eraseDups _

/-! ## 4. The text -/

/-- The text is told by the prototypes and the tables of the given modules. -/
theorem declarationsText_congr {calls' : List NativeCall} {modules : NativeModules}
    (hprototypes : prototypes calls' modules = prototypes calls modules)
    (htables : ∀ m ∈ modules.names, ImportTable.ofCalls calls' m = ImportTable.ofCalls calls m) :
    declarationsText calls' modules = declarationsText calls modules := by
  have hlines : modules.names.flatMap (fun m => (ImportTable.ofCalls calls' m).lines)
      = modules.names.flatMap fun m => (ImportTable.ofCalls calls m).lines :=
    List.flatMap_congr fun m hm => congrArg _ (htables m hm)
  rw [declarationsText, declarationsText, hprototypes, hlines]

/-- **The whole text, and that it declares what it refers to.** The prototypes come from the calls
into the given modules, by name, each where it first occurs; behind them one table for each module
lists its calls; behind the tables come the two arrays, which follow the modules too. The functions
with a prototype are those in the tables. -/
theorem declarations_structure (calls : List NativeCall) (modules : NativeModules) :
    ∃ (ordered : List NativeCall) (texts : List String) (tables : List ImportTable),
      declarationsText calls modules
        = unlines ([generatedHeader, ""] ++ texts ++ tables.flatMap ImportTable.lines ++
          [arrayLine "static void *pinvoke_tables[]"
            (tables.map fun t => ImportTable.symbol t.module ++ ","),
          arrayLine "static char *pinvoke_names[]"
            (tables.map fun t => "\"" ++ t.module ++ "\",")]) ∧
      OrderedByName ordered calls ∧
      FirstOccurrences texts ((ordered.filter fun call => modules.contains call.nativeModule).map
        NativeCall.prototype) ∧
      tables.map (·.module) = modules.names ∧
      (∀ t ∈ tables, t.Lists calls) ∧
      ∀ entryPoint, (∃ text ∈ texts, Declares text entryPoint) ↔
        ∃ t ∈ tables, entryPoint ∈ t.entries.map (·.entryPoint) := by
  have horder := orderedByName_byEntryPoint calls
  have honce : FirstOccurrences (prototypes calls modules) _ := firstOccurrences_eraseDups _
  have hlists : ∀ t ∈ modules.names.map (ImportTable.ofCalls calls), t.Lists calls := by
    intro t ht
    obtain ⟨module, -, rfl⟩ := List.mem_map.1 ht
    exact lists_ofCalls calls module
  refine ⟨byEntryPoint calls, prototypes calls modules,
    modules.names.map (ImportTable.ofCalls calls), ?_, horder, honce, ?_, hlists,
    fun entryPoint => ?_⟩
  · rw [List.flatMap_map, List.map_map, List.map_map]
    rfl
  · rw [List.map_map]
    exact List.map_id _
  · -- Both sides say that there is a call of the function into one of the modules.
    have hcall : (∃ text ∈ prototypes calls modules, Declares text entryPoint) ↔
        ∃ call ∈ calls, call.nativeModule ∈ modules.names ∧ call.entryPoint = entryPoint := by
      constructor
      · rintro ⟨text, htext, hdeclares⟩
        obtain ⟨call, hcall, rfl⟩ := List.mem_map.1 ((honce.mem_iff text).1 htext)
        obtain ⟨hcall, hmodule⟩ := List.mem_filter.1 hcall
        exact ⟨call, horder.perm.mem_iff.1 hcall, of_decide_eq_true hmodule,
          declares_prototype_iff.1 hdeclares⟩
      · rintro ⟨call, hcall, hmodule, hname⟩
        refine ⟨call.prototype, (honce.mem_iff _).2 (List.mem_map.2 ⟨call, ?_, rfl⟩),
          declares_prototype_iff.2 hname⟩
        exact List.mem_filter.2 ⟨horder.perm.mem_iff.2 hcall, decide_eq_true hmodule⟩
    rw [hcall]
    constructor
    · rintro ⟨call, hcall, hmodule, hname⟩
      refine ⟨_, List.mem_map.2 ⟨_, hmodule, rfl⟩, ?_⟩
      exact ((lists_ofCalls calls _).entryPoint_iff entryPoint).2 ⟨call, hcall, rfl, hname⟩
    · rintro ⟨t, ht, hentry⟩
      obtain ⟨call, hcall, hmodule, hname⟩ := ((hlists t ht).entryPoint_iff entryPoint).1 hentry
      obtain ⟨module, hmem, rfl⟩ := List.mem_map.1 ht
      exact ⟨call, hcall, hmodule ▸ hmem, hname⟩

end InteropTables
