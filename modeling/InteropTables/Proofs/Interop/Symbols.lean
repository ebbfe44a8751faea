import InteropTables.Interop.Artifact
import InteropTables.Proofs.Interop.ReadTrampolines

/-!
# The symbols of the generated text

The text defines one symbol for every native module and every callback, and five of its own. Those
of callbacks are compared with each other when they are given; those of native modules are compared
with none.

* `Identifier`: what a symbol has to be;
* `Definition`, `fileDefinitions`: the definitions in the text;
* `text_eq_definitions`: **the text is made of prototypes and definitions**;
* `identifier_symbol_iff`: a table has an identifier unless its module begins with a digit;
* `identifier_fileSymbols_iff`: all symbols are identifiers unless one of a native module is not;
* `nodup_fileSymbols_iff`: no symbol is defined twice unless one of a native module is;
* `file_symbols`: **what the text defines, and when its symbols are fit to be defined.**
-/

namespace InteropTables

open CText

/-! ## 1. Identifiers -/

def BeginsWithDigit (s : String) : Prop :=
  s.toList.head?.any Char.isDigit = true

instance (s : String) : Decidable (BeginsWithDigit s) :=
  inferInstanceAs (Decidable (_ = true))

/-- A text that can be a symbol: one word that does not begin with a digit. -/
structure Identifier (s : String) : Prop where
  word : Word s
  head : ¬ BeginsWithDigit s

instance (s : String) : Decidable (Identifier s) :=
  decidable_of_iff (Word s ∧ ¬ BeginsWithDigit s)
    ⟨fun h => ⟨h.1, h.2⟩, fun h => ⟨h.word, h.head⟩⟩

/-- What begins with an identifier and goes on as a word is an identifier. -/
theorem Identifier.append_parts {s t : String} (hs : Identifier s)
    (ht : ∀ c ∈ t.toList, isWordPart c = true) : Identifier (s ++ t) where
  word := hs.word.append_parts ht
  head := by
    have hne : s.toList ≠ [] := by
      rw [ne_eq, String.toList_eq_nil_iff]
      exact hs.word.nonempty
    rw [BeginsWithDigit, String.toList_append, List.head?_append_of_ne_nil _ hne]
    exact hs.head

theorem Callback.identifier_trampolineName (c : Callback) : Identifier c.trampolineName :=
  Identifier.append_parts (by decide) c.lookupName_parts

/-- A character is a digit as it stands in an identifier when it is one. -/
theorem isDigit_identifierChar (c : Char) : (identifierChar c).isDigit = c.isDigit := by
  rw [identifierChar]
  split
  · rfl
  · rename_i hword
    have hdigit : c.isDigit = false := by
      rw [Bool.eq_false_iff]
      intro hdigit
      rw [isWordChar, Bool.or_eq_true, not_or] at hword
      exact hword.2 hdigit
    rw [hdigit]
    rfl

/-- **The table of a native module has an identifier** unless the name of the module begins with a
digit. -/
theorem identifier_symbol_iff {m : String} :
    Identifier (ImportTable.symbol m) ↔ ¬ BeginsWithDigit m := by
  have hword : Word (ImportTable.symbol m) := by
    refine ⟨fun h => absurd (String.append_eq_empty_iff.1 h).2 (by decide), fun c hc => ?_⟩
    rw [ImportTable.symbol, String.toList_append, List.mem_append] at hc
    rcases hc with hc | hc
    · exact identifierOf_parts c hc
    · exact (by decide : Word "_imports").parts c hc
  have hdigit : BeginsWithDigit (ImportTable.symbol m) ↔ BeginsWithDigit m := by
    rw [BeginsWithDigit, BeginsWithDigit, ImportTable.symbol, String.toList_append, identifierOf,
      String.toList_ofList]
    cases m.toList with
    | nil => decide
    | cons c cs => simp [isDigit_identifierChar]
  rw [← hdigit]
  exact ⟨fun h => h.head, fun h => ⟨hword, h⟩⟩

/-! ## 2. Definitions -/

/-- A definition in the text: what stands in front of its symbol and behind it. -/
structure Definition where
  front : String
  symbol : String
  behind : String

/-- A definition as it is written. -/
def Definition.text (d : Definition) : String :=
  d.front ++ d.symbol ++ d.behind

/-- The definition of a table. -/
def ImportTable.definition (t : ImportTable) : Definition where
  front := "static PinvokeImport "
  symbol := ImportTable.symbol t.module
  behind := " [] = \x7b\n" ++
    unlines (t.entries.map ImportEntry.line ++ ["\x7bNULL, NULL\x7d", "\x7d;"])

/-- The definition of an array with given elements. -/
def arrayDefinition (front symbol : String) (elements : List String) : Definition where
  front
  symbol
  behind := "[] = \x7b " ++ String.join elements ++ "\x7d;\n"

/-- The definition of a trampoline. -/
def Trampoline.definition (t : Trampoline) : Definition where
  front := t.result.spelling ++ " "
  symbol := t.name
  behind := " (" ++ ",".intercalate t.parameterList ++ ") \x7b\n" ++ unlines t.lines.tail

/-- The definitions in the order of the text. -/
def fileDefinitions (calls : List NativeCall) (modules : NativeModules)
    (callbacks : List Callback) : List Definition :=
  modules.names.map (fun m => (ImportTable.ofCalls calls m).definition) ++
    [arrayDefinition "static void *" "pinvoke_tables"
        (modules.names.map fun m => ImportTable.symbol m ++ ","),
      arrayDefinition "static char *" "pinvoke_names"
        (modules.names.map fun m => "\"" ++ m ++ "\","),
      { front := "InterpFtnDesc "
        symbol := "wasm_native_to_interp_ftndescs"
        behind := "[" ++ toString callbacks.length ++ "];\n" }] ++
    (trampolines callbacks).map Trampoline.definition ++
    [arrayDefinition "static void *" "wasm_native_to_interp_funcs"
        ((trampolines callbacks).map (·.name ++ ",")),
      arrayDefinition "static const char *" "wasm_native_to_interp_map"
        (callbacks.map fun c => "\"" ++ c.lookupName ++ "\",\n")]

/-- The symbols that belong to no native module and to no callback. -/
def ownSymbols : List String :=
  ["pinvoke_tables", "pinvoke_names", "wasm_native_to_interp_ftndescs",
    "wasm_native_to_interp_funcs", "wasm_native_to_interp_map"]

/-- The symbols in the order of the text. -/
def fileSymbols (modules : NativeModules) (callbacks : List Callback) : List String :=
  modules.names.map ImportTable.symbol ++ ownSymbols.take 3 ++
    callbacks.map Callback.trampolineName ++ ownSymbols.drop 3

theorem ImportTable.unlines_lines (t : ImportTable) : unlines t.lines = t.definition.text := by
  have hopen : " [] = \x7b\n" = " [] = \x7b" ++ "\n" := rfl
  simp only [lines, List.nil_append, List.cons_append, unlines_cons, definition,
    Definition.text, hopen, String.append_assoc]

theorem Trampoline.unlines_lines (t : Trampoline) : unlines t.lines = t.definition.text := by
  have hopen : ") \x7b\n" = ") \x7b" ++ "\n" := rfl
  have hlines : t.lines = (t.result.spelling ++ " " ++ t.name ++ " (" ++
      ",".intercalate t.parameterList ++ ") \x7b") :: t.lines.tail := rfl
  rw [hlines, unlines_cons]
  simp only [definition, Definition.text, hopen, String.append_assoc]

theorem unlines_arrayLine (front symbol : String) (elements : List String) :
    unlines [arrayLine (front ++ symbol ++ "[]") elements]
      = (arrayDefinition front symbol elements).text := by
  have hopen : "[] = \x7b " = "[]" ++ " = \x7b " := rfl
  have hclose : "\x7d;\n" = "\x7d;" ++ "\n" := rfl
  simp only [unlines_singleton, arrayLine, arrayDefinition, Definition.text, hopen, hclose,
    String.append_assoc]

/-- The definitions of tables and of the arrays over them. -/
theorem declarationsText_eq_definitions (calls : List NativeCall) (modules : NativeModules) :
    declarationsText calls modules = unlines ([generatedHeader, ""] ++ prototypes calls modules) ++
      (String.join (modules.names.map fun m => (ImportTable.ofCalls calls m).definition.text) ++
      ((arrayDefinition "static void *" "pinvoke_tables"
        (modules.names.map fun m => ImportTable.symbol m ++ ",")).text ++
      (arrayDefinition "static char *" "pinvoke_names"
        (modules.names.map fun m => "\"" ++ m ++ "\",")).text)) := by
  have htables : unlines (modules.names.flatMap fun m => (ImportTable.ofCalls calls m).lines)
      = String.join (modules.names.map fun m => (ImportTable.ofCalls calls m).definition.text) := by
    rw [unlines_flatMap]
    simp only [ImportTable.unlines_lines]
  have harrays : [tablesLine modules, namesLine modules]
      = [tablesLine modules] ++ [namesLine modules] := rfl
  rw [declarationsText, harrays, unlines_append, unlines_append _ (modules.names.flatMap _),
    unlines_append [tablesLine modules], htables, ← unlines_arrayLine, ← unlines_arrayLine,
    String.append_assoc]
  rfl

/-- The definitions of trampolines and of the arrays over them. -/
theorem trampolinesText_eq_definitions (callbacks : List Callback) : trampolinesText callbacks
    = "InterpFtnDesc " ++ "wasm_native_to_interp_ftndescs" ++
        ("[" ++ toString callbacks.length ++ "];\n") ++
      (String.join ((trampolines callbacks).map fun t => t.definition.text) ++
      ((arrayDefinition "static void *" "wasm_native_to_interp_funcs"
        ((trampolines callbacks).map (·.name ++ ","))).text ++
      (arrayDefinition "static const char *" "wasm_native_to_interp_map"
        (callbacks.map fun c => "\"" ++ c.lookupName ++ "\",\n")).text)) := by
  have hfunctions : unlines ((trampolines callbacks).flatMap Trampoline.lines)
      = String.join ((trampolines callbacks).map fun t => t.definition.text) := by
    rw [unlines_flatMap]
    simp only [Trampoline.unlines_lines]
  have harrays (front back : String) : [front, back] = [front] ++ [back] := rfl
  have hsize : "];\n" = "];" ++ "\n" := rfl
  have hfront : "InterpFtnDesc wasm_native_to_interp_ftndescs["
    = "InterpFtnDesc " ++ "wasm_native_to_interp_ftndescs" ++ "[" := rfl
  rw [trampolinesText, harrays, unlines_append,
    unlines_append _ ((trampolines callbacks).flatMap _),
    unlines_append [arrayLine _ ((trampolines callbacks).map _)], hfunctions,
    ← unlines_arrayLine, ← unlines_arrayLine, unlines_singleton, hsize, hfront]
  simp only [String.append_assoc]
  rfl

/-- **The text is made of prototypes and definitions.** -/
theorem text_eq_definitions (calls : List NativeCall) (modules : NativeModules)
    (callbacks : List Callback) : declarationsText calls modules ++ trampolinesText callbacks
      = unlines ([generatedHeader, ""] ++ prototypes calls modules) ++
        String.join ((fileDefinitions calls modules callbacks).map Definition.text) := by
  rw [declarationsText_eq_definitions, trampolinesText_eq_definitions]
  simp only [fileDefinitions, List.map_append, List.map_map, List.map_cons, List.map_nil,
    String.join_append, String.join_cons, String.join_nil, String.append_assoc, Definition.text,
    Function.comp_def, String.append_empty]

theorem map_symbol_fileDefinitions {callbacks : List Callback} (hnamed : AllNamed callbacks)
    (calls : List NativeCall) (modules : NativeModules) :
    (fileDefinitions calls modules callbacks).map (·.symbol) = fileSymbols modules callbacks := by
  have hnames := map_name_trampolines hnamed
  simp only [fileDefinitions, fileSymbols, List.map_append, List.map_map, List.map_cons,
    List.map_nil, ← hnames]
  rfl

/-! ## 3. Different symbols -/

theorem symbol_ne {m s : String} (hs : ¬ "_imports".toList <:+ s.toList) :
    ImportTable.symbol m ≠ s := by
  rintro rfl
  refine hs ?_
  rw [ImportTable.symbol, String.toList_append]
  exact List.suffix_append _ _

/-- Behind the front part of the name of a trampoline stands an underscore. -/
theorem trampolineName_ne {c : Callback} {s : String} (hs : '_' ∉ s.toList.drop 22) :
    c.trampolineName ≠ s := by
  rintro rfl
  refine hs ?_
  have hdrop : c.trampolineName.toList.drop 22 = c.lookupName.toList := by
    rw [Callback.trampolineName, String.toList_append]
    exact List.drop_left' (by decide)
  rw [hdrop]
  simp [Callback.lookupName]

theorem symbol_inj {m m' : String} :
    ImportTable.symbol m = ImportTable.symbol m' ↔ identifierOf m = identifierOf m' := by
  constructor
  · intro h
    have hchars := congrArg String.toList h
    rw [ImportTable.symbol, ImportTable.symbol, String.toList_append, String.toList_append]
      at hchars
    exact String.toList_injective (List.append_cancel_right hchars)
  · exact congrArg (· ++ "_imports")

/-- **No symbol is defined twice unless one of a native module is**: two modules share an
identifier, or a table has the name of a trampoline. -/
theorem nodup_fileSymbols_iff {callbacks : List Callback}
    (hnames : (callbacks.map Callback.trampolineName).Nodup) (modules : NativeModules) :
    (fileSymbols modules callbacks).Nodup ↔ (modules.names.map identifierOf).Nodup ∧
      ∀ m ∈ modules.names, ∀ c ∈ callbacks, ImportTable.symbol m ≠ c.trampolineName := by
  have hsymbols : (modules.names.map ImportTable.symbol).Nodup ↔
      (modules.names.map identifierOf).Nodup := by
    rw [List.nodup_map_iff_inj_on modules.nodup, List.nodup_map_iff_inj_on modules.nodup]
    simp only [symbol_inj]
  have htables : ∀ s ∈ ownSymbols, ∀ m, ImportTable.symbol m ≠ s := by
    have hsuffix : ∀ s ∈ ownSymbols, ¬ "_imports".toList <:+ s.toList := by decide
    exact fun s hs m => symbol_ne (hsuffix s hs)
  have htrampolines : ∀ s ∈ ownSymbols, ∀ c : Callback, c.trampolineName ≠ s := by
    have hrest : ∀ s ∈ ownSymbols, '_' ∉ s.toList.drop 22 := by decide
    exact fun s hs c => trampolineName_ne (hrest s hs)
  have hperm : (fileSymbols modules callbacks).Perm ((modules.names.map ImportTable.symbol ++
      callbacks.map Callback.trampolineName) ++ ownSymbols) := by
    rw [fileSymbols, List.append_assoc, List.append_assoc, List.append_assoc]
    exact (List.perm_append_comm_assoc ..).append_left _
  rw [hperm.nodup_iff, List.nodup_append, List.nodup_append, hsymbols]
  simp only [List.forall_mem_map]
  constructor
  · rintro ⟨⟨hmodules, -, happart⟩, -, -⟩
    exact ⟨hmodules, happart⟩
  · rintro ⟨hmodules, happart⟩
    refine ⟨⟨hmodules, hnames, happart⟩, by decide, fun a ha s hs => ?_⟩
    rcases List.mem_append.1 ha with ha | ha
    · obtain ⟨m, -, rfl⟩ := List.mem_map.1 ha
      exact htables s hs m
    · obtain ⟨c, -, rfl⟩ := List.mem_map.1 ha
      exact htrampolines s hs c

/-- **All symbols are identifiers unless one of a native module is not.** -/
theorem identifier_fileSymbols_iff {modules : NativeModules} {callbacks : List Callback} :
    (∀ s ∈ fileSymbols modules callbacks, Identifier s) ↔
      ∀ m ∈ modules.names, ¬ BeginsWithDigit m := by
  have hown : ∀ s ∈ ownSymbols, Identifier s := by decide
  constructor
  · intro h m hm
    refine identifier_symbol_iff.1 (h _ ?_)
    simp only [fileSymbols, List.append_assoc]
    exact List.mem_append_left _ (List.mem_map_of_mem hm)
  · intro h s hs
    simp only [fileSymbols, List.mem_append, List.mem_map] at hs
    rcases hs with ((⟨m, hm, rfl⟩ | hs) | ⟨c, -, rfl⟩) | hs
    · exact identifier_symbol_iff.2 (h m hm)
    · exact hown s (List.mem_of_mem_take hs)
    · exact c.identifier_trampolineName
    · exact hown s (List.mem_of_mem_drop hs)

/-! ## 4. The text -/

theorem render_eq_ok {found : Findings} {modules : NativeModules} {text : String}
    (h : (Artifact.render found modules).text = .ok text) :
    ∃ trampolines, emitTrampolines found.callbacks
        = (.ok trampolines, (Artifact.render found modules).callbacks) ∧
      text = declarationsText found.calls modules ++ trampolines := by
  unfold Artifact.render at h ⊢
  split at h
  · rename_i trampolines callbacks hemit
    rw [hemit]
    exact ⟨trampolines, rfl, (Except.ok.inj h).symm⟩
  · cases h

/-- **What the text defines, and when its symbols are fit to be defined.** Behind the prototypes the
text is made of definitions, one for every native module and every callback and five others. All
their symbols are identifiers exactly when no native module has a name that begins with a digit, and
no symbol is defined twice exactly when the native modules have different identifiers and no table
has the name of a trampoline. -/
theorem file_symbols {found : Findings} {modules : NativeModules} {text : String}
    (h : (Artifact.render found modules).text = .ok text) :
    ∃ definitions : List Definition,
      text = unlines ([generatedHeader, ""] ++ prototypes found.calls modules) ++
        String.join (definitions.map Definition.text) ∧
      definitions.map (·.symbol) = fileSymbols modules (Artifact.render found modules).callbacks ∧
      ((∀ s ∈ definitions.map (·.symbol), Identifier s) ↔
        ∀ m ∈ modules.names, ¬ BeginsWithDigit m) ∧
      ((definitions.map (·.symbol)).Nodup ↔ (modules.names.map identifierOf).Nodup ∧
        ∀ m ∈ modules.names, ∀ c ∈ (Artifact.render found modules).callbacks,
          ImportTable.symbol m ≠ c.trampolineName) := by
  obtain ⟨trampolines, hemit, rfl⟩ := render_eq_ok h
  obtain ⟨rfl, hnamed, hnames⟩ := emitTrampolines_eq_ok hemit
  have hsymbols := map_symbol_fileDefinitions hnamed found.calls modules
  refine ⟨fileDefinitions found.calls modules _, text_eq_definitions .., hsymbols, ?_, ?_⟩
  · rw [hsymbols]
    exact identifier_fileSymbols_iff
  · rw [hsymbols]
    exact nodup_fileSymbols_iff hnames modules

theorem file_symbols_clock :
    ∃ text, (Artifact.render { callbacks := clockCallbacks } (.ofList ["libc", "lib-m"])).text
        = .ok text ∧
      ∃ definitions : List Definition,
        text = unlines ([generatedHeader, ""] ++ prototypes [] (.ofList ["libc", "lib-m"])) ++
          String.join (definitions.map Definition.text) ∧
        (∀ s ∈ definitions.map (·.symbol), Identifier s) ∧
        (definitions.map (·.symbol)).Nodup := by
  have hemit : emitTrampolines clockCallbacks = (.ok (trampolinesText
      (clockCallbacks.map Callback.withName)), clockCallbacks.map Callback.withName) :=
    emitTrampolines_of_sorted (by decide) (by decide) (by decide)
  have hrender : (Artifact.render { callbacks := clockCallbacks } (.ofList ["libc", "lib-m"])).text
      = .ok (declarationsText [] (.ofList ["libc", "lib-m"]) ++
        trampolinesText (clockCallbacks.map Callback.withName)) := by
    rw [Artifact.render, hemit]
  obtain ⟨definitions, htext, -, hidentifiers, hnodup⟩ := file_symbols hrender
  refine ⟨_, hrender, definitions, htext, hidentifiers.2 (by decide), hnodup.2 ⟨by decide, ?_⟩⟩
  rw [Artifact.render, hemit]
  decide

/-- Nothing keeps the symbols of native modules fit, and yet the text is made: a name that begins
with a digit gives no identifier, two names with one identifier give one symbol twice, and a table
can have the name of a trampoline. -/
theorem unfit_symbols :
    (∃ text, (Artifact.render {} (.ofList ["7zip"])).text = .ok text ∧
      ¬ ∀ s ∈ fileSymbols (.ofList ["7zip"]) [], Identifier s) ∧
    (∃ text, (Artifact.render {} (.ofList ["lib-a", "lib.a"])).text = .ok text ∧
      ¬ (fileSymbols (.ofList ["lib-a", "lib.a"]) []).Nodup) ∧
    ImportTable.symbol "wasm_native_to_interp_Clock_App_Alarm"
      = (Callback.plain "Alarm" "imports" 1).trampolineName := by
  have hrender (modules : NativeModules) : (Artifact.render {} modules).text
      = .ok (declarationsText [] modules ++ trampolinesText []) := by
    have hemit : emitTrampolines [] = (.ok (trampolinesText []), []) :=
      emitTrampolines_of_sorted rfl .nil rfl
    rw [Artifact.render, hemit]
  exact ⟨⟨_, hrender _, by decide⟩, ⟨_, hrender _, by decide⟩, by decide⟩

end InteropTables
