import InteropTables.Proofs.Interop.Emission
import InteropTables.Proofs.Interop.TrampolineLines

/-!
# The trampolines read back

The interpreter pairs descriptors, trampolines and names by their positions alone. So the text is
read back here, and what was read is compared with the callbacks in their order.

* `mapLines`, `trampolinesText_eq`: the text line by line, with the array of names on several lines;
* `Callback.word_trampolineName`: the name of a trampoline is one word;
* `readLexemes_trampolinesText`: **the lines of the text, word by word and mark by mark**;
* `TrampolineText.read_trampolinesText`: **the whole text is read back**;
* `FunctionText.Fits`: a trampoline as it is written is that of a callback with a number;
* `trampolines_read_back`: **sizes, numbers, arguments and names agree everywhere.**
-/

namespace InteropTables

open CText

/-! ## 1. The array of names -/

/-- The lines of the array of names: one for each name, the first one behind a front. -/
def mapLines (front : String) : List String → List String
  | [] => [front ++ "\x7d;"]
  | name :: names => (front ++ "\"" ++ name ++ "\",") :: mapLines "" names

/-- What stands in front of the first name. -/
def mapFront : String :=
  "static const char *wasm_native_to_interp_map[]" ++ " = \x7b "

/-- What the lines say. -/
def mapPieces (front : String) : List String → List (List Piece)
  | [] => [codeOf (front ++ "\x7d;")]
  | name :: names => (codeOf front ++ [.quoted '"' name, .code ',']) :: mapPieces "" names

theorem unlines_mapLines (front : String) (names : List String) :
    unlines (mapLines front names)
      = front ++ String.join (names.map fun name => "\"" ++ name ++ "\",\n") ++ "\x7d;" ++
        "\n" := by
  induction names generalizing front with
  | nil =>
    rw [mapLines, unlines_cons]
    simp [unlines]
  | cons name names ih =>
    rw [mapLines, unlines_cons, ih]
    simp [String.append_assoc, String.join_cons]

theorem blockReads_mapLines {front : String} (hfront : Bare front.toList) {names : List String}
    (h : ∀ name ∈ names, Literal name.toList) :
    BlockReads True (mapLines front names) (mapPieces front names) := by
  induction names generalizing front with
  | nil => exact blockReads_bare _ (bare_append hfront (by decide))
  | cons name names ih =>
    obtain ⟨hname, hnames⟩ := List.forall_mem_cons.1 h
    have hread :=
      (readsWhen_bare hfront).append <|
      ((readsWhen_string name.toList).congr (iff_true_intro hname)).append <|
      (readsWhen_bare (s := ",".toList) (by decide)).append <|
      readsWhen_step (p := .code) (c := '\n') rfl
    have hline : BlockReads True [front ++ "\"" ++ name ++ "\","]
        [codeOf front ++ [.quoted '"' name, .code ',']] := by
      refine blockReads_line ?_ (by simp [codeOf])
      simpa [codeOf, ReadsWhen] using hread
    exact (hline.append (ih (by decide) hnames)).congr and_self_iff

theorem lexemes_mapPieces {front : String} {ts : List Lexeme} (hfront : Closes front ts)
    (names : List String) : (mapPieces front names).flatMap lexemes
      = ts ++ names.flatMap (fun name => [.literal name, .mark ',']) ++
        [.mark '\x7d', .mark ';'] := by
  induction names generalizing front ts with
  | nil =>
    have hend : Closes "\x7d;" [.mark '\x7d', .mark ';'] := fun _ => rfl
    rw [mapPieces, List.flatMap_singleton, (hfront.append hend).lexemes, List.flatMap_nil,
      List.append_nil]
  | cons name names ih =>
    have hempty : Closes "" [] := fun _ => rfl
    have hline : lexemes (codeOf front ++ [.quoted '"' name, .code ','])
        = ts ++ [.literal name, .mark ','] := hfront _
    rw [mapPieces, List.flatMap_cons, hline, ih hempty, List.flatMap_cons]
    simp only [List.append_assoc, List.nil_append]

/-! ## 2. The text -/

/-- Callbacks with their names. -/
def AllNamed (callbacks : List Callback) : Prop :=
  ∀ c ∈ callbacks, c.trampoline = some c.trampolineName

theorem identifierOf_parts {name : String} :
    ∀ c ∈ (identifierOf name).toList, isWordPart c = true := by
  intro c hc
  rw [isWordPart, Bool.or_eq_true, beq_iff_eq]
  exact identifierOf_chars hc

/-- The name under which a callback is looked up is made of letters, digits and underscores. -/
theorem Callback.lookupName_parts (k : Callback) :
    ∀ c ∈ k.lookupName.toList, isWordPart c = true := by
  intro c hc
  have hunderscore := (by decide : Word "_").parts
  simp only [lookupName, String.toList_append, List.mem_append] at hc
  rcases hc with (((hc | hc) | hc) | hc) | hc
  · exact identifierOf_parts c hc
  · exact hunderscore c hc
  · exact identifierOf_parts c hc
  · exact hunderscore c hc
  · exact identifierOf_parts c hc

theorem Callback.word_trampolineName (k : Callback) : Word k.trampolineName :=
  Word.append_parts (by decide) k.lookupName_parts

/-- The lines of the text, with those of the array of names. -/
theorem trampolinesText_eq (callbacks : List Callback) : trampolinesText callbacks = unlines
    (["InterpFtnDesc wasm_native_to_interp_ftndescs[" ++ toString callbacks.length ++ "];"] ++
      (trampolines callbacks).flatMap Trampoline.lines ++
      [arrayLine "static void *wasm_native_to_interp_funcs[]"
        ((trampolines callbacks).map (·.name ++ ","))] ++
      mapLines mapFront (callbacks.map Callback.lookupName)) := by
  have hmap : unlines (mapLines mapFront (callbacks.map Callback.lookupName))
      = unlines [arrayLine "static const char *wasm_native_to_interp_map[]"
        (callbacks.map fun c => "\"" ++ c.lookupName ++ "\",\n")] := by
    rw [unlines_mapLines, List.map_map, unlines_cons, arrayLine]
    exact (String.append_empty).symm
  rw [unlines_append, hmap, ← unlines_append]
  simp only [trampolinesText, List.append_assoc]
  rfl

theorem length_trampolines (callbacks : List Callback) :
    (trampolines callbacks).length = callbacks.length := by
  rw [trampolines, List.length_map, List.length_zipIdx]

theorem getElem?_trampolines (callbacks : List Callback) (i : Nat) :
    (trampolines callbacks)[i]? = callbacks[i]?.map (Trampoline.ofCallback i) := by
  rw [trampolines, List.getElem?_map, List.getElem?_zipIdx, Option.map_map, Nat.zero_add]
  rfl

/-- The names of the trampolines are those of the callbacks. -/
theorem map_name_trampolines {callbacks : List Callback} (hnamed : AllNamed callbacks) :
    (trampolines callbacks).map (·.name) = callbacks.map Callback.trampolineName := by
  refine List.ext_getElem? fun i => ?_
  rw [List.getElem?_map, getElem?_trampolines, List.getElem?_map, Option.map_map]
  cases hc : callbacks[i]? with
  | none => rfl
  | some c =>
    have hname := hnamed c (List.mem_of_getElem? hc)
    simp [Trampoline.ofCallback, hname]

theorem word_name {callbacks : List Callback} (hnamed : AllNamed callbacks) {t : Trampoline}
    (ht : t ∈ trampolines callbacks) : Word t.name := by
  have hname := List.mem_map_of_mem (f := Trampoline.name) ht
  rw [map_name_trampolines hnamed] at hname
  obtain ⟨c, -, hc⟩ := List.mem_map.1 hname
  rw [← hc]
  exact c.word_trampolineName

/-- The line with the size of the array of descriptors. -/
def sizeLexemes (n : Nat) : List Lexeme :=
  [.word "InterpFtnDesc", .word "wasm_native_to_interp_ftndescs", .mark '['] ++
    [.word (toString n)] ++ [.mark ']', .mark ';']

/-- The array of the trampolines. -/
def funcsLexemes (ts : List Trampoline) : List Lexeme :=
  [.word "static", .word "void", .mark '*', .word "wasm_native_to_interp_funcs", .mark '[',
      .mark ']', .mark '=', .mark '\x7b'] ++
    ts.flatMap (fun t => [.word t.name, .mark ',']) ++ [.mark '\x7d', .mark ';']

theorem closes_size (n : Nat) :
    Closes ("InterpFtnDesc wasm_native_to_interp_ftndescs[" ++ toString n ++ "];")
      (sizeLexemes n) := by
  have hfront : Closes "InterpFtnDesc wasm_native_to_interp_ftndescs["
    [.word "InterpFtnDesc", .word "wasm_native_to_interp_ftndescs", .mark '['] := fun _ => rfl
  have hend : Closes "];" [.mark ']', .mark ';'] := fun _ => rfl
  exact (hfront.append_gives (gives_word (word_toString n))).append hend (by decide)

theorem closes_funcs {ts : List Trampoline} (hnames : ∀ t ∈ ts, Word t.name) :
    Closes (arrayLine "static void *wasm_native_to_interp_funcs[]" (ts.map (·.name ++ ",")))
      (funcsLexemes ts) := by
  have hfront : Closes ("static void *wasm_native_to_interp_funcs[]" ++ " = \x7b ")
    [.word "static", .word "void", .mark '*', .word "wasm_native_to_interp_funcs", .mark '[',
      .mark ']', .mark '=', .mark '\x7b'] := fun _ => rfl
  have hcomma : Closes "," [.mark ','] := fun _ => rfl
  have hend : Closes "\x7d;" [.mark '\x7d', .mark ';'] := fun _ => rfl
  have hjoin := closes_join fun t ht => (gives_word (hnames t ht)).append hcomma (by decide)
  exact (hfront.append hjoin).append hend

/-- **The lines of the text**, word by word and mark by mark. -/
theorem readLexemes_trampolinesText {callbacks : List Callback} (hnamed : AllNamed callbacks) :
    readLexemes (trampolinesText callbacks) = some
      ([sizeLexemes callbacks.length] ++ (trampolines callbacks).flatMap Trampoline.lexemeLines ++
      [funcsLexemes (trampolines callbacks)] ++
      (mapPieces mapFront (callbacks.map Callback.lookupName)).map lexemes) := by
  have hsize := blockReads_bare
    ("InterpFtnDesc wasm_native_to_interp_ftndescs[" ++ toString callbacks.length ++ "];")
    (bare_append (bare_append (by decide) (bare_word (word_toString _))) (by decide))
  have hfunctions := blockReads_flatMap (trampolines callbacks) fun t ht =>
    blockReads_code (Trampoline.bare_lines (word_name hnamed ht))
  have hfuncs := blockReads_bare (arrayLine "static void *wasm_native_to_interp_funcs[]"
      ((trampolines callbacks).map (·.name ++ ","))) <| by
    refine bare_append (bare_append (by decide) (bare_join fun part hpart => ?_)) (by decide)
    obtain ⟨t, ht, rfl⟩ := List.mem_map.1 hpart
    exact bare_append (bare_word (word_name hnamed ht)) (by decide)
  have hmap : BlockReads True (mapLines mapFront (callbacks.map Callback.lookupName))
      (mapPieces mapFront (callbacks.map Callback.lookupName)) := by
    refine blockReads_mapLines (by decide) fun name hname => ?_
    obtain ⟨c, -, rfl⟩ := List.mem_map.1 hname
    exact literal_of_bare (bare_of_parts c.lookupName_parts)
  have hread := (((hsize.append hfunctions).append hfuncs).append hmap).readLines_iff
  rw [trampolinesText_eq, readLexemes, hread.2 ⟨⟨⟨trivial, fun _ _ => trivial⟩, trivial⟩, trivial⟩]
  have hlines : ((trampolines callbacks).flatMap fun t => t.lines.map codeOf).map lexemes
      = (trampolines callbacks).flatMap Trampoline.lexemeLines := by
    rw [List.map_flatMap]
    refine List.flatMap_congr fun t ht => ?_
    rw [List.map_map]
    exact t.map_lexemes_lines (word_name hnamed ht)
  simp only [Option.map_some, List.map_append, List.map_cons, List.map_nil, hlines,
    (closes_size _).lexemes, (closes_funcs fun t => word_name hnamed).lexemes]

/-! ## 3. What is read -/

namespace TrampolineText

theorem size?_sizeLexemes (n : Nat) : size? (sizeLexemes n) = some n := by
  rw [sizeLexemes, size?, between?_append]
  exact number?_toString n

theorem funcs?_funcsLexemes (ts : List Trampoline) :
    funcs? (funcsLexemes ts) = some (ts.map (·.name)) := by
  rw [funcsLexemes, funcs?, between?_append]
  exact elements?_flatMap fun _ _ => rfl

theorem map?_mapPieces (names : List String) :
    map? ((mapPieces mapFront names).map lexemes) = some names := by
  have hfront : Closes mapFront
    [.word "static", .word "const", .word "char", .mark '*', .word "wasm_native_to_interp_map",
      .mark '[', .mark ']', .mark '=', .mark '\x7b'] := fun _ => rfl
  have helements : elements? literal? (names.flatMap fun name => [.literal name, .mark ','])
      = some (names.map id) := elements?_flatMap fun _ _ => rfl
  rw [List.map_id] at helements
  rw [map?, ← List.flatMap_def, lexemes_mapPieces hfront, between?_append]
  exact helements

/-- **The whole text is read back**: the size of the array of descriptors, all trampolines, and both
arrays. -/
theorem read_trampolinesText {callbacks : List Callback} (hnamed : AllNamed callbacks) :
    read (trampolinesText callbacks) = some
      { size := callbacks.length
        functions := (trampolines callbacks).map Trampoline.text
        funcs := (trampolines callbacks).map (·.name)
        map := callbacks.map Callback.lookupName } := by
  rw [read, readLexemes_trampolinesText hnamed]
  simp only [Option.bind_eq_bind, Option.bind_some, List.append_assoc, List.nil_append,
    List.cons_append, size?_sizeLexemes]
  rw [← length_trampolines, functions?_flatMap]
  simp only [Option.bind_some, funcs?_funcsLexemes, map?_mapPieces]

end TrampolineText

/-- A trampoline as it is written is that of a callback with a number. -/
structure FunctionText.Fits (f : FunctionText) (i : Nat) (c : Callback) : Prop where
  name : c.trampoline = some f.name
  result : f.result = (CType.ofType c.method.result).spelling
  parameters : f.parameters = c.method.parameters.zipIdx.map fun (type, k) =>
    ((CType.ofType type).spelling, "arg" ++ toString k)
  /-- All four numbers are the number of the callback; the fourth is that of the last argument. -/
  indices : f.typedefIndex = i ∧ f.castIndex = i ∧ f.calleeIndex = i
  arguments : f.arguments = (if f.result = "void" then [] else [.place "res"]) ++
    (List.range c.method.parameters.length).map (fun k => .place ("arg" ++ toString k)) ++
    [.auxiliary i]
  slots : f.slots = (if f.result = "void" then 0 else 1) + c.method.parameters.length + 1
  length_arguments : f.arguments.length = f.slots
  declared : f.declared = if f.result = "void" then none else some f.result
  returned : f.returned = true ↔ f.result ≠ "void"

theorem returns_iff (t : Trampoline) : t.returns = true ↔ t.text.result ≠ "void" := by
  have hspelling (c : CType) : (!c.isVoid) = true ↔ c.spelling ≠ "void" := by
    cases c <;> decide
  exact hspelling t.result

/-- A trampoline returns something unless `void` is written. -/
theorem ite_void {α : Type} (t : Trampoline) (a b : α) :
    (if t.text.result = "void" then a else b) = if t.returns then b else a := by
  simp only [returns_iff, ite_not]

theorem length_passed (t : Trampoline) : t.passed.length = t.slots := by
  rw [← t.length_arguments, t.arguments_eq, List.length_map]

theorem fits_ofCallback {c : Callback} (hname : c.trampoline = some c.trampolineName) (i : Nat) :
    (Trampoline.ofCallback i c).text.Fits i c where
  name := by
    dsimp only [Trampoline.text, Trampoline.ofCallback]
    rw [hname, Option.getD_some]
  result := rfl
  parameters := by
    simp [Trampoline.text, Trampoline.ofCallback, List.zipIdx_map]
  indices := ⟨rfl, rfl, rfl⟩
  arguments := by
    rw [ite_void, ← List.length_map CType.ofType]
    rfl
  slots := by
    rw [ite_void, ← List.length_map CType.ofType]
    rfl
  length_arguments := length_passed _
  declared := by
    rw [ite_void]
    rfl
  returned := returns_iff _

/-- An emission writes the text of the callbacks that it leaves behind, which have their names, each
a different one. -/
theorem emitTrampolines_eq_ok {callbacks final : List Callback} {text : String}
    (h : emitTrampolines callbacks = (.ok text, final)) :
    text = trampolinesText final ∧ AllNamed final ∧ (final.map Callback.trampolineName).Nodup := by
  obtain ⟨-, hnamed, htext⟩ := named_of_emitTrampolines h
  obtain ⟨hfinal, hnodup, -⟩ := nameOnto_of_ok hnamed
  refine ⟨htext, ?_, ?_⟩
  · rw [hfinal]
    intro c hc
    obtain ⟨d, -, rfl⟩ := List.mem_map.1 hc
    rfl
  · rw [hfinal, List.reverse_nil, List.nil_append, List.map_map]
    exact hnodup

/-- **The text of an emission can be read back, line by line, and agrees everywhere.** The array of
descriptors has the size of the number of callbacks; there is one trampoline for each of them, with
its name, and its number wherever it refers to a descriptor or a type; it passes as many arguments
as the interpreter's function takes, in order; and the two arrays hold the names of the trampolines
in their order, with and without their front part. The names are different and hold letters, digits
and underscores only. -/
theorem trampolines_read_back {callbacks final : List Callback} {text : String}
    (h : emitTrampolines callbacks = (.ok text, final)) :
    ∃ t : TrampolineText, TrampolineText.read text = some t ∧
      (callbacks.map Callback.unnamed).Perm (final.map Callback.unnamed) ∧
      t.size = final.length ∧
      t.functions.length = final.length ∧
      (∀ (i : Nat) (f : FunctionText) (c : Callback),
        t.functions[i]? = some f → final[i]? = some c → f.Fits i c) ∧
      t.funcs = t.functions.map (·.name) ∧
      t.funcs = t.map.map (trampolinePrefixText ++ ·) ∧
      t.funcs.Nodup ∧
      ∀ name ∈ t.funcs, ∀ c ∈ name.toList, isWordChar c = true ∨ c = '_' := by
  obtain ⟨rfl, hnamed, hnodup⟩ := emitTrampolines_eq_ok h
  have hnames := map_name_trampolines hnamed
  refine ⟨_, TrampolineText.read_trampolinesText hnamed, (perm_of_emitTrampolines h).2, rfl, ?_,
    fun i f c hf hc => ?_, ?_, ?_, ?_, ?_⟩
  · rw [List.length_map, length_trampolines]
  · rw [List.getElem?_map, getElem?_trampolines, hc] at hf
    obtain rfl := Option.some.inj hf
    exact fits_ofCallback (hnamed c (List.mem_of_getElem? hc)) i
  · rw [List.map_map]
    rfl
  · rw [hnames, List.map_map]
    rfl
  · rw [hnames]
    exact hnodup
  · rw [hnames]
    intro name hname c hc
    obtain ⟨k, -, rfl⟩ := List.mem_map.1 hname
    have hpart := k.word_trampolineName.parts c hc
    rwa [isWordPart, Bool.or_eq_true, beq_iff_eq] at hpart

/-- Two callbacks in their order, one that returns something and one that does not. -/
def mixerCallbacks : List Callback :=
  [{ Callback.plain "Mixer" "Blend" 1 with
      method := { (Callback.plain "Mixer" "Blend" 1).method with
        result := .primitive "Int32"
        parameters := [.primitive "Double", .primitive "Int64"] } },
    .plain "Mixer" "Stop" 2]

theorem trampolines_read_back_mixer :
    ∃ (text : String) (t : TrampolineText) (f g : FunctionText),
      emitTrampolines mixerCallbacks = (.ok text, mixerCallbacks.map Callback.withName) ∧
      TrampolineText.read text = some t ∧ t.size = 2 ∧ t.functions = [f, g] ∧
      f.slots = 4 ∧ f.arguments = [.place "res", .place "arg0", .place "arg1", .auxiliary 0] ∧
      g.slots = 1 ∧ g.arguments = [.auxiliary 1] := by
  have hemit : emitTrampolines mixerCallbacks = (.ok (trampolinesText
      (mixerCallbacks.map Callback.withName)), mixerCallbacks.map Callback.withName) :=
    emitTrampolines_of_sorted (by decide) (by decide) (by decide)
  obtain ⟨t, hread, -, hsize, hlength, hfits, -⟩ := trampolines_read_back hemit
  obtain ⟨f, g, hfunctions⟩ := List.length_eq_two.1 hlength
  have hf := hfits 0 f _ (by rw [hfunctions]; rfl) rfl
  have hg := hfits 1 g _ (by rw [hfunctions]; rfl) rfl
  have hint : f.result = "int" := hf.result.trans (by decide)
  have hvoid : g.result = "void" := hg.result.trans (by decide)
  have hfslots := hf.slots
  have hfarguments := hf.arguments
  have hgslots := hg.slots
  have hgarguments := hg.arguments
  rw [hint, if_neg (by decide)] at hfslots hfarguments
  rw [hvoid, if_pos rfl] at hgslots hgarguments
  exact ⟨_, t, f, g, hemit, hread, hsize, hfunctions, hfslots, hfarguments, hgslots, hgarguments⟩

end InteropTables
