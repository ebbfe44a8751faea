import InteropTables.Proofs.CText.Lines
import InteropTables.Proofs.Interop.Declarations

/-!
# The declarations as a C compiler reads them

Names of functions and native modules stand in the declarations as they are: in quotes, among code
and in comments. The text is read as it is meant exactly when none of them leaves its place.

* `ImportEntry.pieces`, `ImportTable.pieces`, `namesPieces`: what the lines are meant to say;
* `NamesStay`: no name leaves its place;
* `blockReads_prototype`, `blockReads_entry`, `blockReads_names`: lines with names in them;
* `readLines_declarations`: **the text is read as it is meant exactly when all names stay**;
* `spliced_declarations`: no line is joined to the next;
* `declarations_read_as_meant`: **what is read are the functions and the native modules.**
-/

namespace InteropTables

open CText

/-! ## 1. What the lines say -/

/-- The line of an entry: the function by its name in quotes and by its symbol, and behind them a
comment with its callers. -/
def ImportEntry.pieces (e : ImportEntry) : List Piece :=
  codeOf "\x7b" ++ [.quoted '"' e.entryPoint] ++ codeOf (", " ++ e.entryPoint ++ "\x7d, ") ++
    [.comment (" " ++ ", ".intercalate e.sources)]

/-- The lines of a table. -/
def ImportTable.pieces (t : ImportTable) : List (List Piece) :=
  [codeOf ("static PinvokeImport " ++ ImportTable.symbol t.module ++ " [] = \x7b")] ++
    t.entries.map ImportEntry.pieces ++ [codeOf "\x7bNULL, NULL\x7d", codeOf "\x7d;"]

/-- The line of the names of native modules. -/
def namesPieces (modules : NativeModules) : List Piece :=
  codeOf "static char *pinvoke_names[] = \x7b " ++
    modules.names.flatMap (fun m => [.quoted '"' m, .code ',']) ++ codeOf "\x7d;"

/-- All lines. -/
def declarationsPieces (calls : List NativeCall) (modules : NativeModules) : List (List Piece) :=
  [[.comment " GENERATED FILE, DO NOT MODIFY"], []] ++ (prototypes calls modules).map codeOf ++
    modules.names.flatMap (fun m => (ImportTable.ofCalls calls m).pieces) ++
    [codeOf (tablesLine modules), namesPieces modules]

/-! ## 2. Code -/

theorem bare_identifierOf (name : String) : Bare (identifierOf name).toList := by
  intro c hc hmark
  rcases identifierOf_chars hc with hword | rfl
  · simp only [lineMarks, List.mem_cons, List.not_mem_nil, or_false] at hmark
    rcases hmark with rfl | rfl | rfl | rfl | rfl <;> exact absurd hword (by decide)
  · exact absurd hmark (by decide)

theorem bare_symbol (module : String) : Bare (ImportTable.symbol module).toList :=
  bare_append (bare_identifierOf module) (by decide)

theorem bare_spelling (t : CType) : Bare t.spelling.toList := by
  cases t <;> decide

theorem bare_opening (m : String) :
    Bare ("static PinvokeImport " ++ ImportTable.symbol m ++ " [] = \x7b").toList :=
  bare_append (bare_append (by decide) (bare_symbol m)) (by decide)

theorem bare_tablesLine (modules : NativeModules) : Bare (tablesLine modules).toList := by
  refine bare_append (bare_append (bare_append (by decide) (by decide)) (bare_join ?_)) (by decide)
  intro part hpart
  obtain ⟨m, -, rfl⟩ := List.mem_map.1 hpart
  exact bare_append (bare_symbol m) (by decide)

/-- A prototype is bare but for the name of its function, behind which stands a blank. -/
theorem NativeCall.prototype_parts (call : NativeCall) :
    ∃ front behind : String, Bare front.toList ∧ Bare behind.toList ∧
      call.prototype = front ++ (call.entryPoint ++ " ") ++ behind := by
  unfold NativeCall.prototype
  split
  · refine ⟨"int ", "(int, int, int, int, int);", by decide, by decide, ?_⟩
    simp only [String.append_assoc]
    rfl
  · refine ⟨(CType.ofType call.method.result).spelling ++ " ",
      "(" ++ ",".intercalate (call.method.parameters.map fun t => (CType.ofType t).spelling)
        ++ ");", bare_append (bare_spelling _) (by decide), ?_, ?_⟩
    · refine bare_append (bare_append (by decide) (bare_intercalate (by decide) ?_)) (by decide)
      rintro part hpart
      obtain ⟨t, -, rfl⟩ := List.mem_map.1 hpart
      exact bare_spelling _
    · simp only [String.append_assoc]
      rfl

/-! ## 3. Lines with names -/

theorem blockReads_prototype (call : NativeCall) :
    BlockReads (OpensNothing call.entryPoint.toList) [call.prototype] [codeOf call.prototype] := by
  obtain ⟨front, behind, hfront, hbehind, hparts⟩ := call.prototype_parts
  refine blockReads_line ?_ (lineEnd_not_mem_codeOf _)
  have hread :=
    (readsWhen_bare hfront).append <|
    (readsWhen_code (c := ' ') (by decide) (by decide) call.entryPoint.toList).append <|
    (readsWhen_bare hbehind).append <|
    readsWhen_step (p := .code) (c := '\n') rfl
  simpa [codeOf, hparts, ReadsWhen] using hread

/-- The name of a function stays in quotes and among code, and the callers in a comment. -/
def ImportEntry.Stays (e : ImportEntry) : Prop :=
  Literal e.entryPoint.toList ∧ OpensNothing e.entryPoint.toList ∧
    ∀ source ∈ e.sources, '\n' ∉ source.toList

/-- **The line of an entry** is its name in quotes, code, and a comment with its callers. -/
theorem blockReads_entry (e : ImportEntry) : BlockReads e.Stays [e.line] [e.pieces] := by
  have hcomment : '\n' ∉ (" " ++ ", ".intercalate e.sources).toList ↔
      ∀ source ∈ e.sources, '\n' ∉ source.toList := by
    rw [String.toList_append, List.mem_append, or_iff_right (by decide),
      mem_toList_intercalate (by decide)]
    simp only [not_exists, not_and]
  have hread :=
    (readsWhen_bare (s := "\x7b".toList) (by decide)).append <|
    (readsWhen_string e.entryPoint.toList).append <|
    (readsWhen_bare (s := ", ".toList) (by decide)).append <|
    (readsWhen_code (c := '\x7d') (by decide) (by decide) e.entryPoint.toList).append <|
    (readsWhen_bare (s := ", ".toList) (by decide)).append <|
    (readsWhen_comment (" " ++ ", ".intercalate e.sources).toList).congr hcomment
  refine blockReads_line ?_ (by simp [ImportEntry.pieces, codeOf])
  simpa [ImportEntry.line, ImportEntry.pieces, codeOf, ImportEntry.Stays, ReadsWhen,
    -String.toList_intercalate] using hread

theorem readsWhen_names (names : List String) : ReadsWhen (∀ m ∈ names, Literal m.toList) .code
    (String.join (names.map fun m => "\"" ++ m ++ "\",")).toList
    (names.flatMap fun m => [.quoted '"' m, .code ',']) .code := by
  induction names with
  | nil => exact (readsWhen_nil _).congr (by simp)
  | cons m names ih =>
    have hread := ((readsWhen_string m.toList).append
      (readsWhen_bare (s := ",".toList) (by decide))).append ih
    simpa [String.join_cons, ReadsWhen] using hread

theorem blockReads_names (modules : NativeModules) :
    BlockReads (∀ m ∈ modules.names, Literal m.toList) [namesLine modules]
      [namesPieces modules] := by
  have hread :=
    (readsWhen_bare (s := "static char *pinvoke_names[] = \x7b ".toList) (by decide)).append <|
    (readsWhen_names modules.names).append <|
    (readsWhen_bare (s := "\x7d;".toList) (by decide)).append <|
    readsWhen_step (p := .code) (c := '\n') rfl
  refine blockReads_line ?_ (by simp [namesPieces, codeOf])
  simpa [namesLine, arrayLine, namesPieces, codeOf, ReadsWhen] using hread

/-! ## 4. Names that stay in their places -/

variable {calls : List NativeCall} {modules : NativeModules}

/-- No name leaves its place in the text. Calls into other modules are not written. -/
structure NamesStay (calls : List NativeCall) (modules : NativeModules) : Prop where
  /-- Names of functions stay in quotes. -/
  quoted : ∀ call ∈ calls, call.nativeModule ∈ modules.names → Literal call.entryPoint.toList
  /-- Names of functions stay among code. -/
  symbol : ∀ call ∈ calls, call.nativeModule ∈ modules.names → OpensNothing call.entryPoint.toList
  /-- Names of callers stay in comments. -/
  caller : ∀ call ∈ calls, call.nativeModule ∈ modules.names → '\n' ∉ call.method.identity.toList
  /-- Names of native modules stay in quotes. -/
  module : ∀ m ∈ modules.names, Literal m.toList

/-- The prototype of a function whose name stays among code. -/
def PrototypeStays (text : String) : Prop :=
  ∃ call : NativeCall, call.prototype = text ∧ OpensNothing call.entryPoint.toList

theorem prototypeStays_iff {call : NativeCall} :
    PrototypeStays call.prototype ↔ OpensNothing call.entryPoint.toList := by
  constructor
  · rintro ⟨other, hprototype, hstays⟩
    rwa [← NativeCall.entryPoint_eq_of_prototype hprototype]
  · exact fun h => ⟨call, rfl, h⟩

/-- Prototypes are those of calls into the given modules. -/
theorem mem_prototypes {text : String} : text ∈ prototypes calls modules ↔
    ∃ call ∈ calls, call.nativeModule ∈ modules.names ∧ call.prototype = text := by
  have hperm := (orderedByName_byEntryPoint calls).perm
  simp only [prototypes, List.mem_eraseDups, List.mem_map, List.mem_filter, hperm.mem_iff,
    NativeModules.contains, decide_eq_true_eq, and_assoc]

theorem NamesStay.prototypes (h : NamesStay calls modules) :
    ∀ text ∈ prototypes calls modules, PrototypeStays text := by
  intro text htext
  obtain ⟨call, hcall, hmodule, rfl⟩ := mem_prototypes.1 htext
  exact prototypeStays_iff.2 (h.symbol call hcall hmodule)

/-- The callers in an entry are those of calls into the module. -/
theorem caller_of_source {m : String} {e : ImportEntry}
    (he : e ∈ (ImportTable.ofCalls calls m).entries) {source : String}
    (hsource : source ∈ e.sources) :
    ∃ call ∈ calls, call.nativeModule = m ∧ call.method.identity = source := by
  obtain ⟨call, hcall, hidentity⟩ :=
    List.mem_map.1 ((((lists_ofCalls calls m).sources e he).mem_iff source).1 hsource)
  obtain ⟨hcall, hown⟩ := List.mem_filter.1 hcall
  exact ⟨call, hcall, eq_of_beq (Bool.and_eq_true_iff.1 hown).1, hidentity⟩

theorem NamesStay.entry (h : NamesStay calls modules) {m : String} (hm : m ∈ modules.names)
    {e : ImportEntry} (he : e ∈ (ImportTable.ofCalls calls m).entries) : e.Stays := by
  obtain ⟨call, hcall, rfl, hname⟩ :=
    ((lists_ofCalls calls m).entryPoint_iff e.entryPoint).1 (List.mem_map_of_mem he)
  rw [ImportEntry.Stays, ← hname]
  refine ⟨h.quoted call hcall hm, h.symbol call hcall hm, fun source hsource => ?_⟩
  obtain ⟨caller, hcaller, hmodule, rfl⟩ := caller_of_source he hsource
  exact h.caller caller hcaller (hmodule ▸ hm)

/-- Every call into a native module stands in an entry of its table. -/
theorem stays_of_entries {call : NativeCall} (hcall : call ∈ calls)
    (h : ∀ e ∈ (ImportTable.ofCalls calls call.nativeModule).entries, e.Stays) :
    Literal call.entryPoint.toList ∧ OpensNothing call.entryPoint.toList ∧
      '\n' ∉ call.method.identity.toList := by
  have hlists := lists_ofCalls calls call.nativeModule
  obtain ⟨e, he, hname⟩ :=
    List.mem_map.1 ((hlists.entryPoint_iff call.entryPoint).2 ⟨call, hcall, rfl, rfl⟩)
  obtain ⟨hquoted, hsymbol, hcaller⟩ := h e he
  rw [hname] at hquoted hsymbol
  refine ⟨hquoted, hsymbol, hcaller _ (((hlists.sources e he).mem_iff _).2 ?_)⟩
  refine List.mem_map.2 ⟨call, List.mem_filter.2 ⟨hcall, ?_⟩, rfl⟩
  rw [hname, Bool.and_eq_true_iff]
  exact ⟨beq_self_eq_true _, beq_self_eq_true _⟩

/-- The names stay exactly when every line keeps those in it. -/
theorem namesStay_iff : NamesStay calls modules ↔
    (∀ text ∈ prototypes calls modules, PrototypeStays text) ∧
    (∀ m ∈ modules.names, ∀ e ∈ (ImportTable.ofCalls calls m).entries, e.Stays) ∧
    ∀ m ∈ modules.names, Literal m.toList := by
  constructor
  · exact fun h => ⟨h.prototypes, fun m hm e he => h.entry hm he, h.module⟩
  · rintro ⟨-, hentries, hmodules⟩
    have hstays (call) (hcall : call ∈ calls) (hm : call.nativeModule ∈ modules.names) :=
      stays_of_entries hcall (hentries _ hm)
    exact ⟨fun call hcall hm => (hstays call hcall hm).1,
      fun call hcall hm => (hstays call hcall hm).2.1,
      fun call hcall hm => (hstays call hcall hm).2.2, hmodules⟩

/-! ## 5. The text -/

theorem blockReads_table (t : ImportTable) :
    BlockReads (∀ e ∈ t.entries, e.Stays) t.lines t.pieces := by
  have hentries : BlockReads (∀ e ∈ t.entries, e.Stays) (t.entries.map ImportEntry.line)
      (t.entries.map ImportEntry.pieces) := blockReads_map _ fun e _ => blockReads_entry e
  have hread :=
    ((blockReads_bare _ (bare_opening t.module)).append hentries).append <|
    (blockReads_bare "\x7bNULL, NULL\x7d" (by decide)).append <|
    blockReads_bare "\x7d;" (by decide)
  exact hread.congr (by simp only [true_and, and_true])

theorem blockReads_prototypes (calls : List NativeCall) (modules : NativeModules) :
    BlockReads (∀ text ∈ prototypes calls modules, PrototypeStays text)
      (prototypes calls modules) ((prototypes calls modules).map codeOf) := by
  have hread : BlockReads (∀ text ∈ prototypes calls modules, PrototypeStays text)
      ((prototypes calls modules).map id) ((prototypes calls modules).map codeOf) := by
    refine blockReads_map _ fun text htext => ?_
    obtain ⟨call, -, -, rfl⟩ := mem_prototypes.1 htext
    exact (blockReads_prototype call).congr prototypeStays_iff.symm
  rwa [List.map_id] at hread

theorem blockReads_header :
    BlockReads True [generatedHeader, ""] [[.comment " GENERATED FILE, DO NOT MODIFY"], []] := by
  have hcomment := (readsWhen_comment " GENERATED FILE, DO NOT MODIFY".toList).congr
    (iff_true_intro (by decide))
  exact ((blockReads_line (k := [_]) hcomment (by simp)).append
    (blockReads_bare "" (by decide))).congr (and_self_iff)

/-- **The text is read as it is meant exactly when all names stay in their places.** -/
theorem readLines_declarations :
    readLines (declarationsText calls modules) = some (declarationsPieces calls modules) ↔
      NamesStay calls modules := by
  have hread :=
    ((blockReads_header.append (blockReads_prototypes calls modules)).append
      (blockReads_flatMap modules.names fun m _ =>
        blockReads_table (ImportTable.ofCalls calls m))).append <|
    (blockReads_bare _ (bare_tablesLine modules)).append (blockReads_names modules)
  rw [namesStay_iff]
  refine (hread.congr ?_).readLines_iff
  simp only [true_and, and_assoc]

/-! ## 6. Joined lines -/

/-- The last character of joined texts is that of one of them, or of what stands between them. -/
theorem getLast?_intercalate {c : Char} {t : String}
    (ht : t.toList.getLast? ≠ some c) :
    ∀ {parts : List String}, (∀ part ∈ parts, part.toList.getLast? ≠ some c) →
      (t.intercalate parts).toList.getLast? ≠ some c
  | [], _ => by simp
  | [part], h => by
    rw [String.intercalate_singleton]
    exact h part (List.mem_singleton_self _)
  | part :: next :: parts, h => by
    obtain ⟨hpart, hmore⟩ := List.forall_mem_cons.1 h
    have ih := getLast?_intercalate ht hmore
    rw [String.intercalate_cons_cons, String.toList_append, String.toList_append]
    rw [List.getLast?_append, List.getLast?_append]
    intro hlast
    rcases Option.or_eq_some_iff.1 hlast with hlast | ⟨-, hlast⟩
    · exact ih hlast
    · rcases Option.or_eq_some_iff.1 hlast with hlast | ⟨-, hlast⟩
      · exact ht hlast
      · exact hpart hlast

theorem staysApart_prototype {call : NativeCall} (h : '\\' ∉ call.entryPoint.toList) :
    StaysApart call.prototype := by
  obtain ⟨front, behind, hfront, hbehind, hparts⟩ := call.prototype_parts
  refine staysApart_of_not_mem fun hmem => ?_
  rw [hparts] at hmem
  simp only [String.toList_append, List.mem_append] at hmem
  rcases hmem with (hmem | hmem | hmem) | hmem
  · exact hfront _ hmem (by decide)
  · exact h hmem
  · exact absurd hmem (by decide)
  · exact hbehind _ hmem (by decide)

theorem staysApart_entry {e : ImportEntry} (h : e.Stays)
    (hlast : ∀ source ∈ e.sources, source.toList.getLast? ≠ some '\\') : StaysApart e.line := by
  intro rest
  have hbackslash := h.1.backslash
  have hfront :
      '\\' ∉ ("\x7b\"" ++ e.entryPoint ++ "\", " ++ e.entryPoint ++ "\x7d, // ").toList := by
    simp [hbackslash]
  have hline := spliced_line rest (not_mem_toList_intercalate (by decide) h.2.2)
    (getLast?_intercalate (c := '\\') (t := ", ") (by decide) hlast)
  rw [ImportEntry.line, String.toList_append, List.append_assoc, spliced_front _ hfront, hline,
    List.append_assoc]

theorem staysApart_names (h : ∀ m ∈ modules.names, Literal m.toList) :
    StaysApart (namesLine modules) := by
  refine staysApart_of_not_mem ?_
  simp only [namesLine, arrayLine, String.toList_append, List.mem_append, String.toList_join,
    List.mem_flatMap, List.mem_map]
  rintro ((hmem | ⟨_, ⟨m, hm, rfl⟩, hmem⟩) | hmem)
  · exact absurd hmem (by decide)
  · simp only [String.toList_append, List.mem_append] at hmem
    rcases hmem with (hmem | hmem) | hmem
    · exact absurd hmem (by decide)
    · exact (h m hm).backslash hmem
    · exact absurd hmem (by decide)
  · exact absurd hmem (by decide)

/-- If no caller's name ends in a backslash, no line is joined to the next. -/
theorem spliced_declarations (h : NamesStay calls modules)
    (hlast : ∀ call ∈ calls, call.nativeModule ∈ modules.names →
      call.method.identity.toList.getLast? ≠ some '\\') :
    spliced (declarationsText calls modules).toList = (declarationsText calls modules).toList := by
  refine spliced_unlines fun line hline => ?_
  simp only [List.mem_append, List.mem_cons, List.not_mem_nil, or_false, List.mem_flatMap,
    ImportTable.lines, List.mem_map] at hline
  rcases hline with (((rfl | rfl) | hline) | ⟨m, hm, (rfl | ⟨e, he, rfl⟩) | rfl | rfl⟩) | rfl | rfl
  · exact staysApart_of_not_mem (by decide)
  · exact staysApart_of_not_mem (by decide)
  · obtain ⟨call, hcall, hmodule, rfl⟩ := mem_prototypes.1 hline
    exact staysApart_prototype (h.quoted call hcall hmodule).backslash
  · exact staysApart_bare (bare_opening m)
  · refine staysApart_entry (h.entry hm he) fun source hsource => ?_
    obtain ⟨call, hcall, hmodule, rfl⟩ := caller_of_source he hsource
    exact hlast call hcall (hmodule ▸ hm)
  · exact staysApart_of_not_mem (by decide)
  · exact staysApart_of_not_mem (by decide)
  · exact staysApart_bare (bare_tablesLine modules)
  · exact staysApart_names h.module

/-! ## 7. What is read -/

/-- What a string literal denotes. -/
def literal? : Piece → Option String
  | .quoted '"' value => some value
  | _ => none

theorem filterMap_codeOf (text : String) : (codeOf text).filterMap literal? = [] := by
  rw [codeOf, List.filterMap_map, List.filterMap_eq_nil_iff]
  exact fun _ _ => rfl

/-- The literal of an entry denotes its function, and its comment ends the line. -/
theorem literals_entry (e : ImportEntry) : e.pieces.filterMap literal? = [e.entryPoint] ∧
    e.pieces.getLast? = some (.comment (" " ++ ", ".intercalate e.sources)) := by
  refine ⟨?_, List.getLast?_append⟩
  simp only [ImportEntry.pieces, List.filterMap_append, filterMap_codeOf]
  rfl

/-- The literals of the names denote the native modules in order. -/
theorem literals_names (modules : NativeModules) :
    (namesPieces modules).filterMap literal? = modules.names := by
  simp only [namesPieces, List.filterMap_append, filterMap_codeOf, List.filterMap_flatMap,
    List.nil_append, List.append_nil]
  exact List.flatMap_singleton' _

/-- **The text is read as it is meant exactly when all names stay in their places**: line by line as
its header, its prototypes, its tables and its two arrays. In the line of an entry the only literal
denotes the function, and a comment with the callers is all the rest of the line; in the last line
the literals denote the native modules in order. If besides no caller's name ends in a backslash, no
line is joined to the next one before. -/
theorem declarations_read_as_meant (calls : List NativeCall) (modules : NativeModules) :
    (readLines (declarationsText calls modules) = some
      ([[.comment " GENERATED FILE, DO NOT MODIFY"], []] ++
        (prototypes calls modules).map codeOf ++
        modules.names.flatMap (fun m => (ImportTable.ofCalls calls m).pieces) ++
        [codeOf (tablesLine modules), namesPieces modules]) ↔ NamesStay calls modules) ∧
    (∀ m ∈ modules.names, ∀ e ∈ (ImportTable.ofCalls calls m).entries,
      e.pieces.filterMap literal? = [e.entryPoint] ∧
      e.pieces.getLast? = some (.comment (" " ++ ", ".intercalate e.sources))) ∧
    (namesPieces modules).filterMap literal? = modules.names ∧
    (NamesStay calls modules →
      (∀ call ∈ calls, call.nativeModule ∈ modules.names →
        call.method.identity.toList.getLast? ≠ some '\\') →
      spliced (declarationsText calls modules).toList
        = (declarationsText calls modules).toList) :=
  ⟨readLines_declarations, fun _ _ e _ => literals_entry e, literals_names modules,
    spliced_declarations⟩

/-- A call of a function that takes and returns nothing. -/
def NativeCall.plain (entryPoint nativeModule identity : String) : NativeCall where
  entryPoint
  nativeModule
  method := {
    declaring := .topLevel "App" "Native"
    name := "Call"
    result := .void
    parameters := []
    identity
    token := .ofParts 6 1 }

/-- Calls and native modules with names that look as if they could leave their places. -/
def oddCalls : List NativeCall :=
  [.plain "f/g" "l'//b" "App\\ // \"x\"", .plain "g*/h/" "l'//b" "A'", .plain "k\n" "libc" "\n"]

theorem declarations_read_as_meant_odd :
    NamesStay oddCalls (.ofList ["l'//b", "m/*"]) ∧
    readLines (declarationsText oddCalls (.ofList ["l'//b", "m/*"]))
      = some (declarationsPieces oddCalls (.ofList ["l'//b", "m/*"])) ∧
    spliced (declarationsText oddCalls (.ofList ["l'//b", "m/*"])).toList
      = (declarationsText oddCalls (.ofList ["l'//b", "m/*"])).toList := by
  have h : NamesStay oddCalls (.ofList ["l'//b", "m/*"]) :=
    ⟨by decide, by decide, by decide, by decide⟩
  obtain ⟨hread, -, -, hspliced⟩ :=
    declarations_read_as_meant oddCalls (.ofList ["l'//b", "m/*"])
  exact ⟨h, hread.2 h, hspliced h (by decide)⟩

/-- Names are written without any escapes: a quote or a backslash in the name of a native module, an
opening comment in the name of a function or a line end in the name of a caller is enough, and the
text is not read as it is meant. -/
theorem names_break_out :
    readLines (declarationsText [] (.ofList ["a\"b"]))
      ≠ some (declarationsPieces [] (.ofList ["a\"b"])) ∧
    readLines (declarationsText [] (.ofList ["a\\tb"]))
      ≠ some (declarationsPieces [] (.ofList ["a\\tb"])) ∧
    readLines (declarationsText [.plain "f//" "libc" "App"] (.ofList ["libc"]))
      ≠ some (declarationsPieces [.plain "f//" "libc" "App"] (.ofList ["libc"])) ∧
    readLines (declarationsText [.plain "f" "libc" "App\nint x;"] (.ofList ["libc"]))
      ≠ some (declarationsPieces [.plain "f" "libc" "App\nint x;"] (.ofList ["libc"])) := by
  refine ⟨fun h => ?_, fun h => ?_, fun h => ?_, fun h => ?_⟩
  · exact absurd ((readLines_declarations.1 h).module _ List.mem_cons_self) (by decide)
  · exact absurd ((readLines_declarations.1 h).module _ List.mem_cons_self) (by decide)
  · have hsymbol := (readLines_declarations.1 h).symbol _ List.mem_cons_self List.mem_cons_self
    exact absurd hsymbol (by decide)
  · have hcaller := (readLines_declarations.1 h).caller _ List.mem_cons_self List.mem_cons_self
    exact absurd (by decide) hcaller

end InteropTables
