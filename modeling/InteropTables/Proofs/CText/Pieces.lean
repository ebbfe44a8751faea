import InteropTables.Interop.ImportTables
import Mathlib.Data.List.Infix

/-!
# The pieces of a C text

What a C compiler tells apart in a text before it looks at its words: code, comments and what stands
in quotes. A line comment ends with its line, a block comment counts as a blank, and a string
literal or character constant ends at the next quote of its kind that no backslash escapes.

* `Piece`, `Place`, `step`, `run`: the reading of a text, one character after the other;
* `ReadsWhen`: under which condition a stretch of text gives certain pieces, whatever follows it;
* `readsWhen_bare`: characters without a meaning are code;
* `run_inside`: in quotes and comments there is no code;
* `readsWhen_code`: **text is code exactly when it opens nothing**;
* `readsWhen_string`: **a string literal denotes its text exactly when none of it has a meaning**;
* `readsWhen_comment`: **a comment is the rest of its line exactly when no line ends in it**.
-/

namespace InteropTables

namespace CText

/-! ## 1. Pieces -/

/-- What a C text is made of. -/
inductive Piece where
  | code (c : Char)
  /-- A string literal or a character constant: its quote, and the text that it denotes. -/
  | quoted (quote : Char) (value : String)
  /-- A comment that ends with its line. -/
  | comment (text : String)
  | lineEnd
deriving DecidableEq, Repr

/-- Where the reading of a text stands. A part of a piece that was read has its last character in
front. -/
inductive Place where
  | code
  /-- Behind a slash, which may begin a comment. -/
  | slash
  | quoted (quote : Char) (value : List Char)
  /-- In quotes, behind a backslash. -/
  | escaped (quote : Char) (value : List Char)
  | lineComment (text : List Char)
  | blockComment
  /-- In a block comment, behind a star. -/
  | star

/-- The character that a letter behind a backslash stands for. Numeric escapes are not read. -/
def escape? (c : Char) : Option Char :=
  [('n', '\n'), ('t', '\t'), ('r', '\r'), ('a', '\x07'), ('b', '\x08'), ('f', '\x0C'),
    ('v', '\x0B'), ('\\', '\\'), ('"', '"'), ('\'', '\''), ('?', '?')].lookup c

/-- A character of code, where no comment can begin with it. -/
def stepCode (c : Char) : List Piece × Place :=
  if c = '"' ∨ c = '\'' then ([], .quoted c [])
  else if c = '/' then ([], .slash)
  else if c = '\n' then ([.lineEnd], .code)
  else ([.code c], .code)

/-- One more character: the pieces that end with it, and the place behind it. -/
def step : Place → Char → Option (List Piece × Place)
  | .code, c => some (stepCode c)
  | .slash, c =>
    if c = '/' then some ([], .lineComment [])
    else if c = '*' then some ([], .blockComment)
    else some (.code '/' :: (stepCode c).1, (stepCode c).2)
  | .quoted quote value, c =>
    if c = quote then some ([.quoted quote (String.ofList value.reverse)], .code)
    else if c = '\\' then some ([], .escaped quote value)
    else if c = '\n' then none
    else some ([], .quoted quote (c :: value))
  | .escaped quote value, c => (escape? c).map fun d => ([], .quoted quote (d :: value))
  | .lineComment text, c =>
    if c = '\n' then some ([.comment (String.ofList text.reverse), .lineEnd], .code)
    else some ([], .lineComment (c :: text))
  | .blockComment, c => some ([], if c = '*' then .star else .blockComment)
  | .star, c =>
    if c = '/' then some ([.code ' '], .code)
    else some ([], if c = '*' then .star else .blockComment)

/-- The pieces of a text from a place on. A text ends where nothing is open. -/
def run : Place → List Char → Option (List Piece)
  | .code, [] => some []
  | _, [] => none
  | place, c :: rest => (step place c).bind fun (pieces, next) => (run next rest).map (pieces ++ ·)

/-- A text as code. -/
def codeOf (text : String) : List Piece :=
  text.toList.map .code

/-! ## 2. Stretches of text -/

/-- From one place on, a stretch of text gives certain pieces and leads to another place under this
condition, whatever follows it. -/
def ReadsWhen (condition : Prop) (place : Place) (text : List Char) (pieces : List Piece)
    (next : Place) : Prop :=
  ∀ rest more, run place (text ++ rest) = some (pieces ++ more) ↔
    condition ∧ run next rest = some more

variable {A B : Prop} {p q r : Place} {s t u : List Char} {k l : List Piece} {c d : Char}

theorem ReadsWhen.append (h : ReadsWhen A p s k q) (h' : ReadsWhen B q t l r) :
    ReadsWhen (A ∧ B) p (s ++ t) (k ++ l) r := by
  intro rest more
  rw [List.append_assoc, List.append_assoc, h, h', and_assoc]

theorem ReadsWhen.congr (h : ReadsWhen A p s k q) (hcondition : A ↔ B) :
    ReadsWhen B p s k q := by
  intro rest more
  rw [h, hcondition]

theorem readsWhen_nil (p : Place) : ReadsWhen True p [] [] p := by
  intro rest more
  simp

theorem run_cons (p : Place) (c : Char) (s : List Char) :
    run p (c :: s) = (step p c).bind fun (pieces, next) => (run next s).map (pieces ++ ·) := by
  rw [run]

/-- A character with which nothing ends. -/
theorem run_of_step (hc : step p c = some ([], q)) : run p (c :: s) = run q s := by
  rw [run_cons, hc]
  simp

theorem ReadsWhen.cons (hc : step p c = some (k, q)) (h : ReadsWhen A q s l r) :
    ReadsWhen A p (c :: s) (k ++ l) r := by
  intro rest more
  rw [List.cons_append, run_cons, hc, ← h]
  simp

theorem ReadsWhen.skip (hc : step p c = some ([], q)) (h : ReadsWhen A q s l r) :
    ReadsWhen A p (c :: s) l r :=
  .cons (k := []) hc h

theorem readsWhen_step (hc : step p c = some (k, q)) : ReadsWhen True p [c] k q := by
  have h := ReadsWhen.cons hc (readsWhen_nil q)
  rwa [List.append_nil] at h

/-- Where a stretch never gives the pieces, the condition does not hold. -/
theorem readsWhen_of_ne (hA : ¬ A) (h : ∀ rest more, run p (s ++ rest) ≠ some (k ++ more)) :
    ReadsWhen A p s k q := by
  intro rest more
  exact iff_of_false (h rest more) fun hboth => hA hboth.1

/-! ## 3. Code -/

/-- The characters with which something other than code can begin or end. -/
def lineMarks : List Char := ['"', '\'', '/', '\\', '\n']

/-- Text without such characters. -/
def Bare (s : List Char) : Prop := ∀ c ∈ s, c ∉ lineMarks

instance (s : List Char) : Decidable (Bare s) :=
  List.decidableBAll (· ∉ lineMarks) s

theorem Bare.append (hs : Bare s) (ht : Bare t) : Bare (s ++ t) := by
  intro c hc
  exact (List.mem_append.1 hc).elim (hs c) (ht c)

theorem stepCode_of_not_mem (hc : c ∉ lineMarks) : stepCode c = ([.code c], .code) := by
  simp only [lineMarks, List.mem_cons, List.not_mem_nil, or_false, not_or] at hc
  obtain ⟨hstring, hcharacter, hslash, -, hline⟩ := hc
  simp [stepCode, hstring, hcharacter, hslash, hline]

theorem readsWhen_bare (h : Bare s) : ReadsWhen True .code s (s.map .code) .code := by
  induction s with
  | nil => exact readsWhen_nil _
  | cons c s ih =>
    obtain ⟨hc, hs⟩ := List.forall_mem_cons.1 h
    exact .cons (k := [.code c]) (congrArg some (stepCode_of_not_mem hc)) (ih hs)

/-- The characters of joined texts are those of the texts, and of what stands between them. -/
theorem mem_toList_intercalate {c : Char} {between : String} (hbetween : c ∉ between.toList) :
    ∀ parts : List String,
      c ∈ (between.intercalate parts).toList ↔ ∃ part ∈ parts, c ∈ part.toList
  | [] => by simp
  | [part] => by simp
  | part :: next :: parts => by
    rw [String.intercalate_cons_cons, String.toList_append, String.toList_append, List.mem_append,
      List.mem_append, mem_toList_intercalate hbetween (next :: parts), or_iff_left hbetween]
    simp only [List.mem_cons, exists_eq_or_imp]

theorem bare_append {s t : String} (hs : Bare s.toList) (ht : Bare t.toList) :
    Bare (s ++ t).toList := by
  rw [String.toList_append]
  exact hs.append ht

theorem bare_intercalate {between : String} (hbetween : Bare between.toList) {parts : List String}
    (h : ∀ part ∈ parts, Bare part.toList) : Bare (between.intercalate parts).toList := by
  intro c hc hmark
  rw [mem_toList_intercalate fun hmem => hbetween c hmem hmark] at hc
  obtain ⟨part, hpart, hmem⟩ := hc
  exact h part hpart c hmem hmark

theorem bare_join {parts : List String} (h : ∀ part ∈ parts, Bare part.toList) :
    Bare (String.join parts).toList := by
  induction parts with
  | nil => exact fun c hc => nomatch hc
  | cons part parts ih =>
    obtain ⟨hpart, hparts⟩ := List.forall_mem_cons.1 h
    rw [String.join_cons]
    exact bare_append hpart (ih hparts)

/-- In quotes or in a comment. -/
def Place.inside : Place → Bool
  | .code | .slash => false
  | _ => true

/-- What ends in quotes or in a comment is no character of code but the blank that a comment counts
for. -/
theorem step_inside {next : Place} (hp : p.inside) (hstep : step p c = some (k, next)) :
    (k = [] ∧ next.inside) ∨
    ∃ piece more, k = piece :: more ∧ ∀ d, d ≠ ' ' → piece ≠ .code d := by
  cases p with
  | code => cases hp
  | slash => cases hp
  | quoted quote value =>
    simp only [step] at hstep
    split at hstep
    · cases hstep
      exact .inr ⟨_, _, rfl, fun _ _ => Piece.noConfusion⟩
    split at hstep
    · cases hstep
      exact .inl ⟨rfl, rfl⟩
    split at hstep
    · cases hstep
    · cases hstep
      exact .inl ⟨rfl, rfl⟩
  | escaped quote value =>
    obtain ⟨d, -, hd⟩ := Option.map_eq_some_iff.1 hstep
    cases hd
    exact .inl ⟨rfl, rfl⟩
  | lineComment text =>
    simp only [step] at hstep
    split at hstep
    · cases hstep
      exact .inr ⟨_, _, rfl, fun _ _ => Piece.noConfusion⟩
    · cases hstep
      exact .inl ⟨rfl, rfl⟩
  | blockComment =>
    simp only [step, Option.some.injEq, Prod.mk.injEq] at hstep
    obtain ⟨rfl, rfl⟩ := hstep
    refine .inl ⟨rfl, ?_⟩
    split <;> rfl
  | star =>
    simp only [step] at hstep
    split at hstep
    · cases hstep
      exact .inr ⟨_, _, rfl, fun d hd h => hd (Piece.code.inj h).symm⟩
    · simp only [Option.some.injEq, Prod.mk.injEq] at hstep
      obtain ⟨rfl, rfl⟩ := hstep
      refine .inl ⟨rfl, ?_⟩
      split <;> rfl

/-- From quotes or a comment a text does not go on with code. -/
theorem run_inside (hp : p.inside) (hd : d ≠ ' ') (rest : List Char) (more : List Piece) :
    run p rest ≠ some (.code d :: more) := by
  induction rest generalizing p with
  | nil =>
    have hopen : run p [] = none := by
      cases p <;> first | rfl | cases hp
    rw [hopen]
    exact nofun
  | cons c rest ih =>
    intro hrun
    rw [run_cons] at hrun
    obtain ⟨⟨pieces, next⟩, hstep, hrun⟩ := Option.bind_eq_some_iff.1 hrun
    obtain ⟨later, hlater, hpieces⟩ := Option.map_eq_some_iff.1 hrun
    rcases step_inside hp hstep with ⟨rfl, hnext⟩ | ⟨piece, others, rfl, hpiece⟩
    · exact ih hnext (by rw [hlater, ← hpieces]; rfl)
    · exact hpiece d hd (List.cons.inj hpieces).1

/-- Text, among code, with which nothing else begins and no line ends. -/
structure OpensNothing (s : List Char) : Prop where
  string : '"' ∉ s
  character : '\'' ∉ s
  line : '\n' ∉ s
  lineComment : ¬ ['/', '/'] <:+: s
  blockComment : ¬ ['/', '*'] <:+: s

theorem opensNothing_iff : OpensNothing s ↔
    '"' ∉ s ∧ '\'' ∉ s ∧ '\n' ∉ s ∧ ¬ ['/', '/'] <:+: s ∧ ¬ ['/', '*'] <:+: s :=
  ⟨fun h => ⟨h.string, h.character, h.line, h.lineComment, h.blockComment⟩,
    fun ⟨string, character, line, lineComment, blockComment⟩ =>
      ⟨string, character, line, lineComment, blockComment⟩⟩

instance (s : List Char) : Decidable (OpensNothing s) :=
  decidable_of_iff' _ opensNothing_iff

theorem opensNothing_nil : OpensNothing [] := by decide

theorem opensNothing_cons : OpensNothing (d :: s) ↔
    (d ≠ '"' ∧ d ≠ '\'' ∧ d ≠ '\n' ∧ (d = '/' → s.head? ≠ some '/' ∧ s.head? ≠ some '*')) ∧
    OpensNothing s := by
  have hpair (c : Char) : ['/', c] <+: d :: s ↔ d = '/' ∧ s.head? = some c := by
    rw [List.cons_prefix_cons, List.singleton_prefix_iff_head?_eq_some, eq_comm]
  simp only [opensNothing_iff, List.mem_cons, List.infix_cons_iff, hpair]
  grind

/-- Text of code is a first character of code and the rest of it. -/
theorem readsWhen_code_cons (hd : d ∉ ['"', '\'', '/', '\n']) (h : ReadsWhen A .code s l q) :
    ReadsWhen A .code (d :: s) (.code d :: l) q := by
  refine .cons (k := [.code d]) (congrArg some ?_) h
  simp only [List.mem_cons, List.not_mem_nil, or_false, not_or] at hd
  obtain ⟨hstring, hcharacter, hslash, hline⟩ := hd
  simp [stepCode, hstring, hcharacter, hslash, hline]

/-- Where quotes or a comment begin a text does not go on with code. -/
theorem run_enter (hstep : step p c = some ([], q)) (hq : q.inside) (hd : d ≠ ' ')
    (rest : List Char) (more : List Piece) : run p (c :: rest) ≠ some (.code d :: more) := by
  rw [run_of_step hstep]
  exact run_inside hq hd rest more

/-- With a quote or a line end a text does not go on as code. -/
theorem run_code_ne (hd : d = '"' ∨ d = '\'' ∨ d = '\n') (rest : List Char) (more : List Piece) :
    run .code (d :: rest) ≠ some (.code d :: more) := by
  rcases hd with rfl | rfl | rfl
  · exact run_enter (q := .quoted '"' []) rfl rfl (by decide) rest more
  · exact run_enter (q := .quoted '\'' []) rfl rfl (by decide) rest more
  · intro hrun
    rw [run_cons] at hrun
    obtain ⟨later, -, hpieces⟩ := Option.map_eq_some_iff.1 hrun
    cases hpieces

/-- Behind a slash that begins a comment a text does not go on as code. -/
theorem run_slash_ne (hd : d = '/' ∨ d = '*') (rest : List Char) (more : List Piece) :
    run .slash (d :: rest) ≠ some (.code '/' :: more) := by
  rcases hd with rfl | rfl
  · exact run_enter (q := .lineComment []) rfl rfl (by decide) rest more
  · exact run_enter (q := .blockComment) rfl rfl (by decide) rest more

/-- Behind a slash that begins no comment a text goes on as code. -/
theorem readsWhen_slash (hline : d ≠ '/') (hblock : d ≠ '*')
    (h : ReadsWhen A .code (d :: s) l q) :
    ReadsWhen A .slash (d :: s) (.code '/' :: l) q := by
  intro rest more
  have hrun : run .slash (d :: s ++ rest) = (run .code (d :: s ++ rest)).map (.code '/' :: ·) := by
    rw [List.cons_append, run_cons, run_cons]
    simp [step, hline, hblock, Function.comp_def]
  rw [hrun, ← h]
  simp

/-- **Text among code is read as code exactly when it opens nothing.** A character behind it, with
which no comment can begin, tells whether its last slash does. -/
theorem readsWhen_code (hc : c ∉ lineMarks) (hstar : c ≠ '*') (s : List Char) :
    ReadsWhen (OpensNothing s) .code (s ++ [c]) ((s ++ [c]).map .code) .code := by
  induction s with
  | nil =>
    refine (readsWhen_bare (s := [c]) ?_).congr (iff_true_intro opensNothing_nil).symm
    exact List.forall_mem_singleton.2 hc
  | cons d s ih =>
    by_cases hopens : d = '"' ∨ d = '\'' ∨ d = '\n'
    · refine readsWhen_of_ne ?_ fun rest more => run_code_ne hopens _ _
      rw [opensNothing_cons]
      grind
    by_cases hslash : d = '/'
    · subst hslash
      refine .skip rfl ?_
      cases s with
      | nil =>
        refine (readsWhen_slash ?_ hstar ih).congr ?_
        · rintro rfl
          exact hc (by decide)
        · decide
      | cons e s =>
        by_cases hcomment : e = '/' ∨ e = '*'
        · refine readsWhen_of_ne ?_ fun rest more => run_slash_ne hcomment _ _
          rw [opensNothing_cons]
          grind
        · rw [not_or] at hcomment
          refine (readsWhen_slash hcomment.1 hcomment.2 ih).congr ?_
          rw [opensNothing_cons (s := e :: s)]
          grind
    · refine (readsWhen_code_cons ?_ ih).congr ?_
      · simp only [List.mem_cons, List.not_mem_nil, or_false, not_or] at hopens ⊢
        exact ⟨hopens.1, hopens.2.1, hslash, hopens.2.2⟩
      · rw [opensNothing_cons]
        grind

/-! ## 4. String literals -/

/-- Text that a string literal denotes as it is. -/
structure Literal (s : List Char) : Prop where
  quote : '"' ∉ s
  backslash : '\\' ∉ s
  line : '\n' ∉ s

theorem literal_iff : Literal s ↔ '"' ∉ s ∧ '\\' ∉ s ∧ '\n' ∉ s :=
  ⟨fun h => ⟨h.quote, h.backslash, h.line⟩,
    fun ⟨quote, backslash, line⟩ => ⟨quote, backslash, line⟩⟩

instance (s : List Char) : Decidable (Literal s) :=
  decidable_of_iff' _ literal_iff

theorem literal_cons : Literal (d :: s) ↔ (d ≠ '"' ∧ d ≠ '\\' ∧ d ≠ '\n') ∧ Literal s := by
  simp only [literal_iff, List.mem_cons, not_or]
  grind

theorem literal_of_bare (h : Bare s) : Literal s where
  quote hmem := h _ hmem (by decide)
  backslash hmem := h _ hmem (by decide)
  line hmem := h _ hmem (by decide)

/-- What was read of a literal. -/
def Place.value? : Place → Option (List Char)
  | .quoted _ value | .escaped _ value => some value
  | _ => none

theorem step_value? {next : Place} {value : List Char} (hp : p.value? = some value)
    (hstep : step p c = some (k, next)) :
    (∃ quote, k = [.quoted quote (String.ofList value.reverse)]) ∨
    (k = [] ∧ ∃ longer, next.value? = some longer ∧ value.reverse <+: longer.reverse) := by
  have hlonger (d : Char) : value.reverse <+: (d :: value).reverse := by
    rw [List.reverse_cons]
    exact List.prefix_append _ _
  cases p with
  | quoted quote text =>
    cases hp
    simp only [step] at hstep
    split at hstep
    · cases hstep
      exact .inl ⟨_, rfl⟩
    split at hstep
    · cases hstep
      exact .inr ⟨rfl, _, rfl, List.prefix_refl _⟩
    split at hstep
    · cases hstep
    · cases hstep
      exact .inr ⟨rfl, _, rfl, hlonger c⟩
  | escaped quote text =>
    cases hp
    obtain ⟨d, -, hd⟩ := Option.map_eq_some_iff.1 hstep
    cases hd
    exact .inr ⟨rfl, _, rfl, hlonger d⟩
  | _ => cases hp

/-- What was read of a literal remains the front part of what it denotes. -/
theorem run_value? {value : List Char} (hp : p.value? = some value) {rest : List Char}
    {quote : Char} {denoted : String} {more : List Piece}
    (hrun : run p rest = some (.quoted quote denoted :: more)) :
    value.reverse <+: denoted.toList := by
  induction rest generalizing p value with
  | nil =>
    have hopen : run p [] = none := by
      cases p <;> first | rfl | cases hp
    rw [hopen] at hrun
    cases hrun
  | cons c rest ih =>
    rw [run_cons] at hrun
    obtain ⟨⟨pieces, next⟩, hstep, hrun⟩ := Option.bind_eq_some_iff.1 hrun
    obtain ⟨later, hlater, hpieces⟩ := Option.map_eq_some_iff.1 hrun
    rcases step_value? hp hstep with ⟨mark, rfl⟩ | ⟨rfl, longer, hlonger, hprefix⟩
    · obtain ⟨hpiece, -⟩ := List.cons.inj hpieces
      cases hpiece
      exact String.toList_ofList.symm ▸ List.prefix_refl _
    · exact hprefix.trans (ih hlonger (hlater.trans (congrArg some hpieces)))

/-- A character that was read is the next of what is denoted. -/
theorem head?_of_run {value l : List Char} (hp : p.value? = some (d :: value)) {rest : List Char}
    {quote : Char} {more : List Piece}
    (hrun : run p rest = some (.quoted quote (String.ofList (value.reverse ++ l)) :: more)) :
    l.head? = some d := by
  have hprefix := run_value? hp hrun
  rw [String.toList_ofList, List.reverse_cons, List.prefix_append_right_inj] at hprefix
  exact List.singleton_prefix_iff_head?_eq_some.1 hprefix

theorem escape?_backslash (h : escape? d = some '\\') : d = '\\' := by
  obtain ⟨front, behind, hpairs, -⟩ := List.lookup_eq_some_iff.1 h
  have hmem : (d, '\\') ∈ front ++ (d, '\\') :: behind := List.mem_append_right _ List.mem_cons_self
  rw [← hpairs] at hmem
  simpa using hmem

theorem step_quoted (hd : d ≠ '"' ∧ d ≠ '\\' ∧ d ≠ '\n') (value : List Char) :
    step (.quoted '"' value) d = some ([], .quoted '"' (d :: value)) := by
  obtain ⟨hquote, hbackslash, hline⟩ := hd
  simp [step, hquote, hbackslash, hline]

theorem readsWhen_quoted (h : Literal s) (value : List Char) :
    ReadsWhen True (.quoted '"' value) (s ++ ['"'])
      [.quoted '"' (String.ofList (value.reverse ++ s))] .code := by
  induction s generalizing value with
  | nil =>
    rw [List.append_nil]
    exact readsWhen_step rfl
  | cons d s ih =>
    obtain ⟨hd, hs⟩ := literal_cons.1 h
    have hread := ih hs (d :: value)
    rw [List.reverse_cons, List.append_assoc] at hread
    exact .skip (step_quoted hd value) hread

/-- Where a backslash is denoted, a second one stands behind the first. -/
theorem run_escaped {value l rest : List Char} {more : List Piece}
    (hrun : run (.escaped '"' value) (d :: rest)
      = some (.quoted '"' (String.ofList (value.reverse ++ '\\' :: l)) :: more)) :
    d = '\\' ∧ run (.quoted '"' ('\\' :: value)) rest
      = some (.quoted '"' (String.ofList (('\\' :: value).reverse ++ l)) :: more) := by
  cases hd : escape? d with
  | none =>
    rw [run_cons] at hrun
    simp [step, hd] at hrun
  | some e =>
    rw [run_of_step (q := .quoted '"' (e :: value)) (by simp [step, hd])] at hrun
    obtain rfl : '\\' = e := Option.some.inj (head?_of_run rfl hrun)
    refine ⟨escape?_backslash hd, ?_⟩
    rwa [List.reverse_cons, List.append_assoc]

theorem replicate_append_cons (n : Nat) (c : Char) (s : List Char) :
    List.replicate n c ++ c :: s = c :: (List.replicate n c ++ s) := by
  rw [List.append_cons, ← List.replicate_succ', List.replicate_succ, List.cons_append]

/-- A literal that denotes its own text has none of the characters with a meaning. With an escape
the text lags behind what it has to denote, by backslashes, and ends too early. -/
theorem literal_of_run {u : List Char} {l : List Piece} (s value : List Char) (n : Nat)
    (hrun : run (.quoted '"' value) (s ++ '"' :: u)
      = some (.quoted '"' (String.ofList (value.reverse ++ (List.replicate n '\\' ++ s))) :: l)) :
    n = 0 ∧ Literal s := by
  have hends {t v : List Char} (hrun : run (.quoted '"' value) ('"' :: t)
      = some (.quoted '"' (String.ofList (value.reverse ++ v)) :: l)) : v = [] := by
    rw [run_cons] at hrun
    obtain ⟨later, -, hpieces⟩ := Option.map_eq_some_iff.1 hrun
    obtain ⟨hpiece, -⟩ := List.cons.inj hpieces
    simpa using String.ofList_injective (Piece.quoted.inj hpiece).2
  match s with
  | [] =>
    have hnil := hends hrun
    exact ⟨by simpa using hnil, by decide⟩
  | d :: s =>
    by_cases hquote : d = '"'
    · subst hquote
      have hnil := hends hrun
      simp at hnil
    by_cases hline : d = '\n'
    · subst hline
      cases hrun
    by_cases hbackslash : d = '\\'
    · subst hbackslash
      rw [List.cons_append, run_of_step (q := .escaped '"' value) rfl] at hrun
      rw [replicate_append_cons] at hrun
      match s with
      | [] => exact absurd (run_escaped hrun).1 (by decide)
      | e :: s =>
        obtain ⟨rfl, hrun⟩ := run_escaped hrun
        rw [replicate_append_cons, ← List.cons_append, ← List.replicate_succ] at hrun
        exact absurd (literal_of_run s _ (n + 1) hrun).1 (Nat.succ_ne_zero n)
    · have hd := And.intro hquote (And.intro hbackslash hline)
      rw [List.cons_append, run_of_step (step_quoted hd value)] at hrun
      have hhead := head?_of_run rfl hrun
      match n with
      | 0 =>
        refine ⟨rfl, literal_cons.2 ⟨hd, (literal_of_run (u := u) (l := l) s (d :: value) 0 ?_).2⟩⟩
        simpa using hrun
      | n + 1 => exact absurd (Option.some.inj hhead).symm hbackslash

/-- **A string literal denotes the text in its quotes exactly when none of it has a meaning.** -/
theorem readsWhen_string (s : List Char) : ReadsWhen (Literal s) .code ('"' :: (s ++ ['"']))
    [.quoted '"' (String.ofList s)] .code := by
  refine .skip rfl fun rest more => ⟨fun hrun => ?_, fun ⟨h, hrest⟩ => ?_⟩
  · have h : Literal s := by
      refine (literal_of_run (u := rest) (l := more) s [] 0 ?_).2
      rwa [List.append_assoc] at hrun
    exact ⟨h, ((readsWhen_quoted h [] rest more).1 hrun).2⟩
  · exact (readsWhen_quoted h [] rest more).2 ⟨trivial, hrest⟩

/-! ## 5. Comments -/

theorem step_lineComment (hd : d ≠ '\n') (t : List Char) :
    step (.lineComment t) d = some ([], .lineComment (d :: t)) := by
  simp [step, hd]

theorem readsWhen_lineComment (h : '\n' ∉ s) (t : List Char) :
    ReadsWhen True (.lineComment t) (s ++ ['\n'])
      [.comment (String.ofList (t.reverse ++ s)), .lineEnd] .code := by
  induction s generalizing t with
  | nil =>
    rw [List.append_nil]
    exact readsWhen_step rfl
  | cons d s ih =>
    rw [List.mem_cons, not_or] at h
    have hread := ih h.2 (d :: t)
    rw [List.reverse_cons, List.append_assoc] at hread
    exact .skip (step_lineComment (Ne.symm h.1) t) hread

theorem not_mem_of_run (s t : List Char) (hrun : run (.lineComment t) (s ++ u)
    = some (.comment (String.ofList (t.reverse ++ s)) :: l)) : '\n' ∉ s := by
  induction s generalizing t with
  | nil => exact List.not_mem_nil
  | cons d s ih =>
    rw [List.cons_append] at hrun
    by_cases hd : d = '\n'
    · subst hd
      rw [run_cons] at hrun
      obtain ⟨later, -, hpieces⟩ := Option.map_eq_some_iff.1 hrun
      obtain ⟨hpiece, -⟩ := List.cons.inj hpieces
      simpa using String.ofList_injective (Piece.comment.inj hpiece)
    · rw [run_of_step (step_lineComment hd t)] at hrun
      rw [List.mem_cons, not_or]
      refine ⟨Ne.symm hd, ih (d :: t) ?_⟩
      rwa [List.reverse_cons, List.append_assoc]

/-- **A comment is the rest of its line exactly when no line ends in it.** -/
theorem readsWhen_comment (s : List Char) : ReadsWhen ('\n' ∉ s) .code ('/' :: '/' :: (s ++ ['\n']))
    [.comment (String.ofList s), .lineEnd] .code := by
  refine .skip rfl (.skip rfl fun rest more => ⟨fun hrun => ?_, fun ⟨h, hrest⟩ => ?_⟩)
  · have h : '\n' ∉ s := by
      rw [List.append_assoc] at hrun
      exact not_mem_of_run s [] hrun
    exact ⟨h, ((readsWhen_lineComment h [] rest more).1 hrun).2⟩
  · exact (readsWhen_lineComment h [] rest more).2 ⟨trivial, hrest⟩

end CText
end InteropTables
