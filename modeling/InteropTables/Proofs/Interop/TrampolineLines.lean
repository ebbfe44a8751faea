import InteropTables.Interop.Trampolines
import InteropTables.Proofs.Interop.TrampolineText

/-!
# The lines of a trampoline

The lines that are written for a trampoline consist of words and marks that can be told from its
data, and from them a reader gets the trampoline back.

* `Passed.written`, `Trampoline.passed`: what a trampoline passes, in one list;
* `Trampoline.lexemeLines`: what the lines consist of;
* `Trampoline.map_lexemes_lines`: **the lines, word by word and mark by mark**;
* `Trampoline.bare_lines`: they hold no quotes and no comments;
* `function?_lexemeLines`, `functions?_flatMap`: **they are read back as the trampoline they were
  written for**.
-/

namespace InteropTables

open CText

/-! ## 1. Lines -/

/-- What is passed, as it is written. -/
def Passed.written : Passed → String
  | place name => "&" ++ name
  | auxiliary descriptor =>
    "wasm_native_to_interp_ftndescs [" ++ toString descriptor ++ "]" ++ ".arg"

def Passed.lexemes : Passed → List Lexeme
  | place name => [.mark '&', .word name]
  | auxiliary descriptor =>
    [.word "wasm_native_to_interp_ftndescs", .mark '[', .word (toString descriptor), .mark ']',
      .mark '.', .word "arg"]

namespace Trampoline

variable (t : Trampoline)

/-- What a trampoline passes: the place of its result, those of its parameters, and an argument of
its own. -/
def passed : List Passed :=
  (if t.returns then [.place "res"] else []) ++
    (List.range t.parameters.length).map (fun i => .place ("arg" ++ toString i)) ++
    [.auxiliary t.index]

/-- A trampoline as it is written. -/
def text : FunctionText where
  result := t.result.spelling
  name := t.name
  parameters := t.parameters.zipIdx.map fun (type, i) => (type.spelling, "arg" ++ toString i)
  typedefIndex := t.index
  slots := t.slots
  declared := if t.returns then some t.result.spelling else none
  castIndex := t.index
  calleeIndex := t.index
  arguments := t.passed
  returned := t.returns

/-- The line with result, name and parameters. -/
def head : List Lexeme :=
  [.word t.result.spelling, .word t.name, .mark '('] ++
    [.mark ','].intercalate (t.parameters.zipIdx.map fun (type, i) =>
      [.word type.spelling, .word ("arg" ++ toString i)]) ++
    [.mark ')', .mark '\x7b']

/-- The line with the type of the interpreter's function. -/
def typedef : List Lexeme :=
  [.word "typedef", .word "void", .mark '(', .mark '*', .word t.signatureName, .mark ')',
      .mark '('] ++
    [.mark ','].intercalate ((List.range t.slots).map fun _ => [.word "int", .mark '*']) ++
    [.mark ')', .mark ';']

/-- The line with the call of the interpreter's function. -/
def call : List Lexeme :=
  [.mark '(', .mark '(', .word t.signatureName, .mark ')', .word "wasm_native_to_interp_ftndescs",
      .mark '[', .word (toString t.index), .mark ']', .mark '.', .word "func", .mark ')',
      .mark '('] ++
    [.mark ','].intercalate (t.passed.map Passed.lexemes) ++
    [.mark ')', .mark ';']

/-- All lines. -/
def lexemeLines : List (List Lexeme) :=
  [t.head, t.typedef] ++
    (if t.returns then [[.word t.result.spelling, .word "res", .mark ';']] else []) ++
    [t.call] ++
    (if t.returns then [[.word "return", .word "res", .mark ';']] else []) ++
    [[.mark '\x7d']]

theorem arguments_eq : t.arguments = t.passed.map Passed.written := by
  simp only [arguments, passed, List.map_append, List.map_map]
  congr 2
  split <;> rfl

end Trampoline

theorem word_arg (i : Nat) : Word ("arg" ++ toString i) :=
  Word.append_parts (by decide) (word_toString i).parts

theorem word_spelling (c : CType) : Word c.spelling := by
  cases c <;> decide

theorem Trampoline.word_signatureName (t : Trampoline) : Word t.signatureName :=
  Word.append_parts (by decide) (word_toString t.index).parts

theorem closes_descriptor (n : Nat) :
    Closes ("wasm_native_to_interp_ftndescs [" ++ toString n ++ "]")
      [.word "wasm_native_to_interp_ftndescs", .mark '[', .word (toString n), .mark ']'] := by
  have hfront : Closes "wasm_native_to_interp_ftndescs ["
    [.word "wasm_native_to_interp_ftndescs", .mark '['] := fun _ => rfl
  have hbracket : Closes "]" [.mark ']'] := fun _ => rfl
  exact (hfront.append_gives (gives_word (word_toString n))).append hbracket (by decide)

/-- The names of variables are words. -/
def Passed.Named : Passed → Prop
  | place name => Word name
  | auxiliary _ => True

theorem gives_passed {p : Passed} (h : p.Named) : Gives p.written p.lexemes := by
  cases p with
  | place name =>
    have hmark : Closes "&" [.mark '&'] := fun _ => rfl
    exact hmark.append_gives (gives_word h)
  | auxiliary descriptor =>
    have hpoint : Closes "." [.mark '.'] := fun _ => rfl
    have harg : Gives ("." ++ "arg") [.mark '.', .word "arg"] :=
      hpoint.append_gives (gives_word (by decide))
    exact (closes_descriptor descriptor).append_gives harg

namespace Trampoline

variable (t : Trampoline)

theorem named_passed : ∀ p ∈ t.passed, p.Named := by
  intro p hp
  simp only [passed, List.mem_append, List.mem_map, List.mem_singleton] at hp
  rcases hp with (hp | ⟨i, -, rfl⟩) | rfl
  · split at hp
    · obtain rfl := List.mem_singleton.1 hp
      exact (by decide : Word "res")
    · cases hp
  · exact word_arg i
  · trivial

theorem gives_parameter (c : CType) (i : Nat) : Gives (c.spelling ++ " arg" ++ toString i)
    [.word c.spelling, .word ("arg" ++ toString i)] := by
  have hblank : Closes " " [] := fun _ => rfl
  have hparts : c.spelling ++ " arg" ++ toString i
      = c.spelling ++ " " ++ ("arg" ++ toString i) := by
    have harg : " arg" = " " ++ "arg" := rfl
    simp only [harg, String.append_assoc]
  rw [hparts]
  exact ((gives_word (word_spelling c)).append hblank (by decide)).append_gives
    (gives_word (word_arg i))

theorem closes_head (hname : Word t.name) : Closes
    (t.result.spelling ++ " " ++ t.name ++ " (" ++ ",".intercalate t.parameterList ++ ") \x7b")
    t.head := by
  have hblank : Closes " " [] := fun _ => rfl
  have hcomma : Closes "," [.mark ','] := fun _ => rfl
  have hopen : Closes " (" [.mark '('] := fun _ => rfl
  have hclose : Closes ") \x7b" [.mark ')', .mark '\x7b'] := fun _ => rfl
  have hparameters : Gives (",".intercalate t.parameterList) ([.mark ','].intercalate
      (t.parameters.zipIdx.map fun (type, i) =>
        [.word type.spelling, .word ("arg" ++ toString i)])) :=
    gives_intercalate hcomma (by decide) fun (type, i) _ => gives_parameter type i
  exact (((((gives_word (word_spelling t.result)).append hblank (by decide)).append_gives
    (gives_word hname)).append hopen (by decide)).append_gives hparameters).append hclose
    (by decide)

theorem closes_typedef : Closes
    ("typedef void (*" ++ t.signatureName ++ ") (" ++
      ",".intercalate (List.replicate t.slots "int*") ++ ");") t.typedef := by
  have hfront : Closes "typedef void (*" [.word "typedef", .word "void", .mark '(', .mark '*'] :=
    fun _ => rfl
  have hcomma : Closes "," [.mark ','] := fun _ => rfl
  have hplace : Closes "int*" [.word "int", .mark '*'] := fun _ => rfl
  have hopen : Closes ") (" [.mark ')', .mark '('] := fun _ => rfl
  have hclose : Closes ");" [.mark ')', .mark ';'] := fun _ => rfl
  have hplaces := gives_intercalate (l := List.range t.slots) hcomma (by decide)
    fun _ _ => hplace.gives
  rw [List.map_const', List.length_range] at hplaces
  exact (((hfront.append_gives (gives_word t.word_signatureName)).append hopen
    (by decide)).append_gives hplaces).append hclose (by decide)

theorem closes_call : Closes
    ("((" ++ t.signatureName ++ ")" ++ t.descriptor ++ ".func) (" ++
      ", ".intercalate t.arguments ++ ");") t.call := by
  have hfront : Closes "((" [.mark '(', .mark '('] := fun _ => rfl
  have hcast : Closes ")" [.mark ')'] := fun _ => rfl
  have hfunction : Closes ".func) (" [.mark '.', .word "func", .mark ')', .mark '('] := fun _ => rfl
  have hcomma : Closes ", " [.mark ','] := fun _ => rfl
  have hclose : Closes ");" [.mark ')', .mark ';'] := fun _ => rfl
  have harguments : Gives (", ".intercalate t.arguments)
      ([.mark ','].intercalate (t.passed.map Passed.lexemes)) := by
    rw [t.arguments_eq]
    exact gives_intercalate hcomma (by decide) fun p hp => gives_passed (t.named_passed p hp)
  exact (((((hfront.append_gives (gives_word t.word_signatureName)).append hcast
    (by decide)).append (closes_descriptor t.index)).append hfunction).append_gives
    harguments).append hclose (by decide)

/-- **The lines of a trampoline**, word by word and mark by mark. -/
theorem map_lexemes_lines (hname : Word t.name) :
    t.lines.map (fun line => lexemes (codeOf line)) = t.lexemeLines := by
  have hdeclared : Closes (t.result.spelling ++ " res;")
      [.word t.result.spelling, .word "res", .mark ';'] :=
    (gives_word (word_spelling t.result)).append (fun _ => rfl) (by decide)
  have hreturned : Closes "return res;" [.word "return", .word "res", .mark ';'] := fun _ => rfl
  have hend : Closes "\x7d" [.mark '\x7d'] := fun _ => rfl
  simp only [lines, lexemeLines, List.map_append, List.map_cons, List.map_nil,
    (t.closes_head hname).lexemes, t.closes_typedef.lexemes, t.closes_call.lexemes, hend.lexemes]
  split
  · simp only [List.map_cons, List.map_nil, hdeclared.lexemes, hreturned.lexemes]
  · rfl

end Trampoline

/-! ## 2. Code -/

theorem bare_word {w : String} (h : Word w) : Bare w.toList :=
  bare_of_parts h.parts

theorem bare_descriptor (n : Nat) :
    Bare ("wasm_native_to_interp_ftndescs [" ++ toString n ++ "]").toList :=
  bare_append (bare_append (by decide) (bare_word (word_toString n))) (by decide)

theorem Passed.bare_written {p : Passed} (h : p.Named) : Bare p.written.toList := by
  cases p with
  | place name => exact bare_append (by decide) (bare_word h)
  | auxiliary n => exact bare_append (bare_descriptor n) (by decide)

theorem Trampoline.bare_lines {t : Trampoline} (hname : Word t.name) :
    ∀ line ∈ t.lines, Bare line.toList := by
  have hresult := bare_word (word_spelling t.result)
  have hsignature := bare_word t.word_signatureName
  have hparameters : Bare (",".intercalate t.parameterList).toList := by
    refine bare_intercalate (by decide) fun part hpart => ?_
    obtain ⟨⟨type, i⟩, -, rfl⟩ := List.mem_map.1 hpart
    exact bare_append (bare_append (bare_word (word_spelling type)) (by decide))
      (bare_word (word_toString i))
  have hplaces : Bare (",".intercalate (List.replicate t.slots "int*")).toList := by
    refine bare_intercalate (by decide) fun part hpart => ?_
    rw [List.eq_of_mem_replicate hpart]
    decide
  have harguments : Bare (", ".intercalate t.arguments).toList := by
    refine bare_intercalate (by decide) fun part hpart => ?_
    rw [t.arguments_eq] at hpart
    obtain ⟨p, hp, rfl⟩ := List.mem_map.1 hpart
    exact Passed.bare_written (t.named_passed p hp)
  have hreturned {line : String} {s : String} (hs : Bare s.toList)
      (hline : line ∈ if t.returns then [s] else []) : Bare line.toList := by
    split at hline
    · rwa [List.mem_singleton.1 hline]
    · cases hline
  intro line hline
  simp only [lines, List.mem_append, List.mem_cons, List.not_mem_nil, or_false] at hline
  rcases hline with ((((rfl | rfl) | hline) | rfl) | hline) | rfl
  · exact bare_append (bare_append (bare_append (bare_append (bare_append hresult (by decide))
      (bare_word hname)) (by decide)) hparameters) (by decide)
  · exact bare_append (bare_append (bare_append (bare_append (by decide) hsignature) (by decide))
      hplaces) (by decide)
  · exact hreturned (bare_append hresult (by decide)) hline
  · exact bare_append (bare_append (bare_append (bare_append (bare_append (bare_append (by decide)
      hsignature) (by decide)) (bare_descriptor t.index)) (by decide)) harguments) (by decide)
  · exact hreturned (by decide) hline
  · decide

/-! ## 3. What is read -/

namespace TrampolineText

variable (t : Trampoline)

theorem signatureIndex?_signatureName : signatureIndex? t.signatureName = some t.index := by
  have hname : t.signatureName.toList = "WasmInterpEntrySig_".toList ++ (toString t.index).toList :=
    String.toList_append
  have hdigits : t.signatureName.toList.dropPrefix? "WasmInterpEntrySig_".toList
      = some (toString t.index).toList := by
    rw [hname]
    exact List.dropPrefix?_append_of_beq _ (beq_self_eq_true _)
  rw [signatureIndex?, hdigits, Option.bind_some, String.ofList_toList, number?_toString]

theorem descriptor?_cons (n : Nat) (rest : List Lexeme) :
    descriptor? (.word "wasm_native_to_interp_ftndescs" :: .mark '[' :: .word (toString n) ::
      .mark ']' :: .mark '.' :: rest) = some (n, rest) := by
  rw [descriptor?, if_pos rfl, number?_toString]
  rfl

theorem passed?_lexemes (p : Passed) : passed? p.lexemes = some p := by
  cases p with
  | place name => rfl
  | auxiliary n =>
    rw [Passed.lexemes, passed?, descriptor?_cons]
    · rfl
    · exact nofun

theorem head?_head : head? t.head = some (t.text.result, t.text.name, t.text.parameters) := by
  have hsplit : t.head = .word t.result.spelling :: .word t.name :: ([.mark '('] ++
      [.mark ','].intercalate (t.parameters.zipIdx.map fun (type, i) =>
        [.word type.spelling, .word ("arg" ++ toString i)]) ++ [.mark ')', .mark '\x7b']) := rfl
  have hlist : separated ([.mark ','].intercalate (t.parameters.zipIdx.map fun (type, i) =>
      [.word type.spelling, .word ("arg" ++ toString i)])) = t.parameters.zipIdx.map
        fun (type, i) => [.word type.spelling, .word ("arg" ++ toString i)] := by
    refine separated_intercalate fun list hlist => ?_
    obtain ⟨_, -, rfl⟩ := List.mem_map.1 hlist
    simp
  have hparameters : (t.parameters.zipIdx.map fun (type, i) =>
      [.word type.spelling, .word ("arg" ++ toString i)]).mapM parameter?
      = some t.text.parameters := mapM_map fun _ _ => rfl
  rw [hsplit, head?, between?_append, Option.bind_eq_bind, Option.bind_some, hlist, hparameters]
  rfl

theorem typedef?_typedef : typedef? t.typedef = some (t.text.typedefIndex, t.text.slots) := by
  have hsplit : t.typedef = [.word "typedef", .word "void", .mark '(', .mark '*'] ++
      (.word t.signatureName :: .mark ')' :: .mark '(' :: [.mark ','].intercalate
        ((List.range t.slots).map fun _ => [.word "int", .mark '*'])) ++
      [.mark ')', .mark ';'] := rfl
  have hplaces : separated ([.mark ','].intercalate
      ((List.range t.slots).map fun _ => [.word "int", .mark '*']))
      = (List.range t.slots).map fun _ => [.word "int", .mark '*'] := by
    refine separated_intercalate fun list hlist => ?_
    obtain ⟨_, -, rfl⟩ := List.mem_map.1 hlist
    simp
  rw [hsplit, typedef?, between?_append, Option.bind_eq_bind, Option.bind_some]
  simp only [signatureIndex?_signatureName, hplaces, Option.bind_eq_bind, Option.bind_some]
  rw [if_pos, List.length_map, List.length_range]
  · rfl
  · rw [List.all_map, List.all_eq_true]
    exact fun _ _ => beq_self_eq_true _

theorem call?_call : call? t.call
    = some (t.text.castIndex, t.text.calleeIndex, t.text.arguments) := by
  have hsplit : t.call = [.mark '(', .mark '('] ++
      (.word t.signatureName :: .mark ')' :: .word "wasm_native_to_interp_ftndescs" :: .mark '[' ::
        .word (toString t.index) :: .mark ']' :: .mark '.' ::
          ([.word "func", .mark ')', .mark '('] ++
            [.mark ','].intercalate (t.passed.map Passed.lexemes))) ++
      [.mark ')', .mark ';'] := rfl
  have hlist : separated ([.mark ','].intercalate (t.passed.map Passed.lexemes))
      = t.passed.map Passed.lexemes := by
    refine separated_intercalate fun list hlist => ?_
    obtain ⟨p, -, rfl⟩ := List.mem_map.1 hlist
    cases p <;> simp [Passed.lexemes]
  have harguments : (t.passed.map Passed.lexemes).mapM passed? = some t.text.arguments := by
    have hread := mapM_map (l := t.passed) fun p _ => passed?_lexemes p
    rwa [List.map_id'] at hread
  rw [hsplit, call?, between?_append, Option.bind_eq_bind, Option.bind_some]
  simp only [signatureIndex?_signatureName, descriptor?_cons, Option.bind_eq_bind,
    Option.bind_some, List.dropPrefix?_append_of_beq _ (beq_self_eq_true _), hlist, harguments]
  rfl

/-- **A trampoline is read back**, whatever stands behind it. -/
theorem function?_lexemeLines (rest : List (List Lexeme)) :
    function? (t.lexemeLines ++ rest) = some (t.text, rest) := by
  have hdeclared : declared? t.call = none := rfl
  cases hreturns : t.returns with
  | false =>
    have hlines : t.lexemeLines ++ rest
        = t.head :: t.typedef :: t.call :: [.mark '\x7d'] :: rest := by
      simp [Trampoline.lexemeLines, hreturns]
    have hend : returned? [.mark '\x7d'] = none := rfl
    rw [hlines, function?, head?_head, typedef?_typedef]
    simp only [Option.bind_eq_bind, Option.bind_some, optional, hdeclared, call?_call, hend]
    simp [Trampoline.text, hreturns]
  | true =>
    have hlines : t.lexemeLines ++ rest = t.head :: t.typedef ::
        [.word t.result.spelling, .word "res", .mark ';'] :: t.call ::
        [.word "return", .word "res", .mark ';'] :: [.mark '\x7d'] :: rest := by
      simp [Trampoline.lexemeLines, hreturns]
    have hvariable : declared? [.word t.result.spelling, .word "res", .mark ';']
        = some t.result.spelling := rfl
    have hend : returned? [.word "return", .word "res", .mark ';'] = some () := rfl
    rw [hlines, function?, head?_head, typedef?_typedef]
    simp only [Option.bind_eq_bind, Option.bind_some, optional, hvariable, call?_call, hend]
    simp [Trampoline.text, hreturns]

/-- **Trampolines are read back**, one after the other. -/
theorem functions?_flatMap (ts : List Trampoline) (rest : List (List Lexeme)) :
    functions? ts.length (ts.flatMap Trampoline.lexemeLines ++ rest)
      = some (ts.map Trampoline.text, rest) := by
  induction ts with
  | nil => rfl
  | cons t ts ih =>
    rw [List.flatMap_cons, List.append_assoc, List.length_cons, functions?, function?_lexemeLines]
    simp only [Option.bind_eq_bind, Option.bind_some, ih]
    rfl

end TrampolineText

end InteropTables
