import InteropTables.Proofs.Interop.Prototypes

/-!
# Declarations and the order of calls

The calls are put in order by the names of their functions before anything is written, and calls of
one function keep their order. So their order is seen only where calls of one function are told
apart: among its prototypes, and among the callers of its entry in a table.

* `Declarations`, `Declarations.ofCalls`: the parts of the text;
* `declaredName`, `declaredName_prototype`: the function of a prototype, read off its text;
* `byEntryPoint_congr`: **the order of calls of different functions is not seen**;
* `Declarations.SameUpToOrder`: what another order of the calls may change;
* `declarations_any_order`: **the declarations in any order of the calls.**
-/

namespace InteropTables

/-! ## 1. The parts of the text -/

/-- The prototypes and the tables of a text. -/
structure Declarations where
  prototypes : List String
  tables : List ImportTable

namespace Declarations

/-- The two arrays that follow the tables. -/
def arrays (d : Declarations) : List String :=
  [arrayLine "static void *pinvoke_tables[]"
      (d.tables.map fun t => ImportTable.symbol t.module ++ ","),
    arrayLine "static char *pinvoke_names[]" (d.tables.map fun t => "\"" ++ t.module ++ "\",")]

/-- The whole text. -/
def text (d : Declarations) : String :=
  unlines ([generatedHeader, ""] ++ d.prototypes ++ d.tables.flatMap ImportTable.lines ++ d.arrays)

/-- The declarations of calls, for given native modules. -/
def ofCalls (calls : List NativeCall) (modules : NativeModules) : Declarations where
  prototypes := InteropTables.prototypes calls modules
  tables := modules.names.map (ImportTable.ofCalls calls)

theorem text_ofCalls (calls : List NativeCall) (modules : NativeModules) :
    (ofCalls calls modules).text = declarationsText calls modules := by
  simp only [text, arrays, ofCalls, List.flatMap_map, List.map_map]
  rfl

end Declarations

/-! ## 2. Names in prototypes -/

/-- The function that a prototype declares: its name stands between the first blank and the blank in
front of the last bracket that opens. -/
def declaredName (text : String) : String :=
  let behind := (text.toList.dropWhile (· != ' ')).tail
  String.ofList (behind.reverse.dropWhile (· != '(')).tail.tail.reverse

theorem declaredName_prototype (call : NativeCall) :
    declaredName call.prototype = call.entryPoint := by
  obtain ⟨result, parameters, hresult, hparameters, htext⟩ := call.toList_prototype
  have hfront : call.prototype.toList.dropWhile (· != ' ')
      = ' ' :: (call.entryPoint.toList ++ [' '] ++ '(' :: parameters) := by
    rw [htext, List.append_assoc, List.dropWhile_append_of_pos]
    · rfl
    · intro c hc
      exact bne_iff_ne.2 fun h => hresult (h ▸ hc)
  have hbehind :
      (call.entryPoint.toList ++ [' '] ++ '(' :: parameters).reverse.dropWhile (· != '(')
        = '(' :: ' ' :: call.entryPoint.toList.reverse := by
    rw [List.reverse_append, List.reverse_cons, List.append_assoc, List.dropWhile_append_of_pos]
    · simp
    · intro c hc
      exact bne_iff_ne.2 fun h => hparameters (h ▸ List.mem_reverse.1 hc)
  rw [declaredName, hfront, List.tail_cons, hbehind, List.tail_cons, List.tail_cons,
    List.reverse_reverse, String.ofList_toList]

/-! ## 3. What another order may change -/

/-- Two tables differ in the order of the callers of their entries. -/
structure ImportTable.SameUpToOrder (t t' : ImportTable) : Prop where
  module : t.module = t'.module
  entryPoints : t.entries.map (·.entryPoint) = t'.entries.map (·.entryPoint)
  sources : List.Forall₂ (fun e e' => e.sources.Perm e'.sources) t.entries t'.entries

/-- Two declarations differ in the order of the prototypes of single functions, and in the order of
the callers of single entries. -/
structure Declarations.SameUpToOrder (d d' : Declarations) : Prop where
  prototypes : d.prototypes.Perm d'.prototypes
  /-- The prototypes declare the same functions, place by place. -/
  declared : ∃ names, List.Forall₂ Declares d.prototypes names ∧
    List.Forall₂ Declares d'.prototypes names
  tables : List.Forall₂ ImportTable.SameUpToOrder d.tables d'.tables
  arrays : d.arrays = d'.arrays

/-! ## 4. Any order -/

section Orders

variable {calls calls' : List NativeCall} {modules : NativeModules}

theorem compareNames_kind (a : NativeCall) :
    (fun b : NativeCall => compareNames a b == .eq) = fun b => b.entryPoint == a.entryPoint := by
  funext b
  rw [Bool.eq_iff_iff, beq_iff_eq, beq_iff_eq, eq_comm (a := b.entryPoint)]
  exact Std.LawfulEqOrd.compare_eq_iff_eq

/-- **The order of calls of different functions is not seen.** -/
theorem byEntryPoint_congr
    (h : ∀ entryPoint, calls.filter (fun call => call.entryPoint == entryPoint)
      = calls'.filter fun call => call.entryPoint == entryPoint) :
    byEntryPoint calls = byEntryPoint calls' := by
  refine eq_of_filter_eq compareNames (pairwise_byEntryPoint calls)
    (pairwise_byEntryPoint calls') fun a => ?_
  rw [compareNames_kind, (orderedByName_byEntryPoint calls).stable,
    (orderedByName_byEntryPoint calls').stable, h]

theorem declarationsText_of_byEntryPoint (h : byEntryPoint calls = byEntryPoint calls') :
    declarationsText calls modules = declarationsText calls' modules :=
  declarationsText_congr (by simp only [prototypes, h]) fun _ _ => by
    simp only [ImportTable.ofCalls, h]

theorem byEntryPoint_perm (h : calls.Perm calls') :
    (byEntryPoint calls).Perm (byEntryPoint calls') :=
  (orderedByName_byEntryPoint calls).perm.trans
    (h.trans (orderedByName_byEntryPoint calls').perm.symm)

/-- Names have one order. -/
theorem eq_of_perm_of_isLE {names names' : List String} (h : names.Perm names')
    (hnames : names.Pairwise fun a b => (compare a b).isLE)
    (hnames' : names'.Pairwise fun a b => (compare a b).isLE) : names = names' :=
  h.eq_of_pairwise (fun _ _ _ _ hab hba =>
    Std.LawfulEqOrd.eq_of_compare (Std.OrientedCmp.isLE_antisymm hab hba)) hnames hnames'

/-- The calls that a filter lets pass are of the same functions, place by place. -/
theorem map_entryPoint_eq (h : calls.Perm calls') (p : NativeCall → Bool) :
    ((byEntryPoint calls).filter p).map (·.entryPoint)
      = ((byEntryPoint calls').filter p).map (·.entryPoint) := by
  refine eq_of_perm_of_isLE (((byEntryPoint_perm h).filter p).map _) ?_ ?_
  · exact List.pairwise_map.2 ((pairwise_byEntryPoint calls).filter p)
  · exact List.pairwise_map.2 ((pairwise_byEntryPoint calls').filter p)

theorem prototypes_perm (h : calls.Perm calls') :
    (prototypes calls modules).Perm (prototypes calls' modules) :=
  eraseDups_perm (((byEntryPoint_perm h).filter _).map _)

/-- Prototypes stand in the order of the functions that they declare. -/
theorem pairwise_declaredName (calls : List NativeCall) (modules : NativeModules) :
    ((prototypes calls modules).map declaredName).Pairwise fun a b => (compare a b).isLE := by
  have hall : (((byEntryPoint calls).filter fun call => modules.contains call.nativeModule).map
      NativeCall.prototype).Pairwise
      fun a b => (compare (declaredName a) (declaredName b)).isLE := by
    refine List.pairwise_map.2 (((pairwise_byEntryPoint calls).filter _).imp fun {a b} hab => ?_)
    rwa [declaredName_prototype, declaredName_prototype]
  exact List.pairwise_map.2 (((firstOccurrences_eraseDups _).pairwise hall).imp And.left)

theorem forall₂_declares (calls : List NativeCall) (modules : NativeModules) :
    List.Forall₂ Declares (prototypes calls modules)
      ((prototypes calls modules).map declaredName) := by
  refine List.forall₂_map_right_iff.2 (List.forall₂_same.2 fun text htext => ?_)
  obtain ⟨call, -, -, rfl⟩ := mem_prototypes.1 htext
  exact declares_prototype_iff.2 (declaredName_prototype call).symm

theorem ImportTable.sameUpToOrder_ofCalls (h : calls.Perm calls') (module : String) :
    (ofCalls calls module).SameUpToOrder (ofCalls calls' module) := by
  have hnames := congrArg List.eraseDups
    (map_entryPoint_eq h fun call => call.nativeModule == module)
  refine ⟨rfl, ?_, ?_⟩
  · simp only [ofCalls, hnames, List.map_map, Function.comp_def]
  · simp only [ofCalls, hnames]
    refine List.forall₂_map_left_iff.2 (List.forall₂_map_right_iff.2 (List.forall₂_same.2 ?_))
    intro entryPoint _
    exact eraseDups_perm ((((byEntryPoint_perm h).filter _).filter _).map _)

theorem Declarations.sameUpToOrder_ofCalls (h : calls.Perm calls') (modules : NativeModules) :
    (ofCalls calls modules).SameUpToOrder (ofCalls calls' modules) where
  prototypes := prototypes_perm h
  declared := by
    refine ⟨_, forall₂_declares calls modules, ?_⟩
    have hnames : (InteropTables.prototypes calls modules).map declaredName
        = (InteropTables.prototypes calls' modules).map declaredName :=
      eq_of_perm_of_isLE ((prototypes_perm h).map _) (pairwise_declaredName calls modules)
        (pairwise_declaredName calls' modules)
    rw [hnames]
    exact forall₂_declares calls' modules
  tables := by
    refine List.forall₂_map_left_iff.2 (List.forall₂_map_right_iff.2 (List.forall₂_same.2 ?_))
    exact fun module _ => ImportTable.sameUpToOrder_ofCalls h module
  arrays := by
    simp only [Declarations.arrays, ofCalls, List.map_map]
    rfl

/-- **The declarations in any order of the calls.** They are the same text if the order of the calls
of each function is kept. In any other order they have the same prototypes, which declare the same
functions in the same order; the same tables with the same entries, where an entry has the same
callers; and the same arrays. -/
theorem declarations_any_order (h : calls.Perm calls') (modules : NativeModules) :
    ((∀ entryPoint, calls.filter (fun call => call.entryPoint == entryPoint)
        = calls'.filter fun call => call.entryPoint == entryPoint) →
      declarationsText calls modules = declarationsText calls' modules) ∧
    declarationsText calls modules = (Declarations.ofCalls calls modules).text ∧
    declarationsText calls' modules = (Declarations.ofCalls calls' modules).text ∧
    (Declarations.ofCalls calls modules).SameUpToOrder (Declarations.ofCalls calls' modules) :=
  ⟨fun hkept => declarationsText_of_byEntryPoint (byEntryPoint_congr hkept),
    (Declarations.text_ofCalls calls modules).symm, (Declarations.text_ofCalls calls' modules).symm,
    Declarations.sameUpToOrder_ofCalls h modules⟩

end Orders

/-- A call that stops a clock. -/
def stopCall : NativeCall := .plain "stop" "clock" "First"

/-- Two calls of one function with different types. -/
def tickCalls : List NativeCall :=
  [.returning (.primitive "Int32") "tick" "clock" "First",
    .returning (.primitive "Double") "tick" "clock" "Second"]

/-- Behind the calls of the other function the first call gives the same text. When these change
places, so do their prototypes. -/
theorem declarations_any_order_clock :
    let modules := NativeModules.ofList ["clock"]
    (stopCall :: tickCalls).Perm (tickCalls ++ [stopCall]) ∧
    declarationsText (stopCall :: tickCalls) modules
      = declarationsText (tickCalls ++ [stopCall]) modules ∧
    (stopCall :: tickCalls).Perm (stopCall :: tickCalls.reverse) ∧
    (Declarations.ofCalls (stopCall :: tickCalls) modules).SameUpToOrder
      (Declarations.ofCalls (stopCall :: tickCalls.reverse) modules) ∧
    prototypes (stopCall :: tickCalls) modules
      = ["void stop ();", "int tick ();", "double tick ();"] ∧
    prototypes (stopCall :: tickCalls.reverse) modules
      = ["void stop ();", "double tick ();", "int tick ();"] := by
  intro modules
  have hmoved : (stopCall :: tickCalls).Perm (tickCalls ++ [stopCall]) :=
    (List.perm_append_singleton stopCall tickCalls).symm
  have hreverse : (stopCall :: tickCalls).Perm (stopCall :: tickCalls.reverse) :=
    (List.reverse_perm tickCalls).symm.cons stopCall
  have hkept : ∀ entryPoint,
      (stopCall :: tickCalls).filter (fun call => call.entryPoint == entryPoint)
        = (tickCalls ++ [stopCall]).filter fun call => call.entryPoint == entryPoint := by
    intro entryPoint
    by_cases hstop : stopCall.entryPoint = entryPoint
    · subst hstop
      decide
    · simp only [List.filter_append, List.filter_cons, if_neg (mt eq_of_beq hstop),
        List.filter_nil, List.append_nil]
  have hsorted : byEntryPoint (stopCall :: tickCalls) = stopCall :: tickCalls :=
    List.mergeSort_of_pairwise (by decide)
  have hsorted' : byEntryPoint (stopCall :: tickCalls.reverse) = stopCall :: tickCalls.reverse :=
    List.mergeSort_of_pairwise (by decide)
  refine ⟨hmoved, (declarations_any_order hmoved modules).1 hkept, hreverse,
    (declarations_any_order hreverse modules).2.2.2, ?_, ?_⟩
  · rw [prototypes, hsorted]
    decide
  · rw [prototypes, hsorted']
    decide

end InteropTables
