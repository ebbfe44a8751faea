import InteropTables.Proofs.CText.Pieces

/-!
# The lines of a C text

A text that is written line by line is read line by line if no piece goes on behind its line.

* `linesOf`, `readLines`: the pieces of every line;
* `BlockReads`: under which condition some lines give certain pieces, whatever follows them;
* `BlockReads.append`, `blockReads_flatMap`, `blockReads_map`: blocks of lines behind one another;
* `BlockReads.readLines_iff`: **lines give their pieces exactly when each of them does**;
* `spliced`, `spliced_unlines`: a line that ends in a backslash is joined to the next, others stay.
-/

namespace InteropTables

namespace CText

/-! ## 1. Lines -/

/-- Pieces as lines, without their line ends. Every line has one. -/
def linesOf : List Piece → Option (List (List Piece))
  | [] => some []
  | .lineEnd :: pieces => (linesOf pieces).map ([] :: ·)
  | piece :: pieces =>
    match linesOf pieces with
    | some (line :: lines) => some ((piece :: line) :: lines)
    | _ => none

/-- The pieces of every line of a text. -/
def readLines (text : String) : Option (List (List Piece)) :=
  (run .code text.toList).bind linesOf

variable {A B : Prop} {k l : List Piece} {b b' : List (List Piece)}

theorem linesOf_cons {piece : Piece} (hpiece : piece ≠ .lineEnd) (k : List Piece) :
    linesOf (piece :: k) = (linesOf k).bind fun
      | line :: lines => some ((piece :: line) :: lines)
      | [] => none := by
  rw [linesOf]
  · cases linesOf k with
    | none => rfl
    | some lines => cases lines <;> rfl
  · exact hpiece

theorem linesOf_append (h : .lineEnd ∉ k) (l : List Piece) :
    linesOf (k ++ .lineEnd :: l) = (linesOf l).map (k :: ·) := by
  induction k with
  | nil => rw [List.nil_append, linesOf]
  | cons piece k ih =>
    rw [List.mem_cons, not_or] at h
    rw [List.cons_append, linesOf_cons (Ne.symm h.1), ih h.2]
    cases linesOf l <;> rfl

/-- Pieces are these lines when they are the lines with their ends. -/
theorem linesOf_eq_some_iff : linesOf k = some b ↔
    k = b.flatMap (· ++ [.lineEnd]) ∧ ∀ line ∈ b, .lineEnd ∉ line := by
  constructor
  · intro h
    induction k generalizing b with
    | nil =>
      cases h
      exact ⟨rfl, nofun⟩
    | cons piece k ih =>
      by_cases hpiece : piece = .lineEnd
      · subst hpiece
        obtain ⟨lines, hlines, rfl⟩ := Option.map_eq_some_iff.1 h
        obtain ⟨rfl, hwithin⟩ := ih hlines
        exact ⟨rfl, List.forall_mem_cons.2 ⟨List.not_mem_nil, hwithin⟩⟩
      · rw [linesOf_cons hpiece] at h
        obtain ⟨lines, hlines, hcons⟩ := Option.bind_eq_some_iff.1 h
        obtain ⟨hk, hwithin⟩ := ih hlines
        cases lines with
        | nil => cases hcons
        | cons line lines =>
          cases hcons
          subst hk
          obtain ⟨hline, hwithin⟩ := List.forall_mem_cons.1 hwithin
          refine ⟨rfl, List.forall_mem_cons.2 ⟨?_, hwithin⟩⟩
          rw [List.mem_cons, not_or]
          exact ⟨Ne.symm hpiece, hline⟩
  · rintro ⟨rfl, hwithin⟩
    induction b with
    | nil => rfl
    | cons line b ih =>
      obtain ⟨hline, hwithin⟩ := List.forall_mem_cons.1 hwithin
      rw [List.flatMap_cons, List.append_assoc, List.singleton_append, linesOf_append hline,
        ih hwithin]
      rfl

/-! ## 2. Blocks of lines -/

theorem unlines_cons (line : String) (lines : List String) :
    unlines (line :: lines) = line ++ "\n" ++ unlines lines :=
  String.join_cons ..

theorem unlines_singleton (line : String) : unlines [line] = line ++ "\n" := by
  rw [unlines_cons]
  exact String.append_empty

theorem unlines_append (l l' : List String) : unlines (l ++ l') = unlines l ++ unlines l' := by
  rw [unlines, List.map_append, String.join_append]
  rfl

theorem unlines_flatMap {α : Type} (l : List α) (f : α → List String) :
    unlines (l.flatMap f) = String.join (l.map fun a => unlines (f a)) := by
  induction l with
  | nil => rfl
  | cons a l ih => rw [List.flatMap_cons, unlines_append, ih, List.map_cons, String.join_cons]

theorem toList_unlines (lines : List String) :
    (unlines lines).toList = lines.flatMap fun line => line.toList ++ ['\n'] := by
  rw [unlines, String.toList_join, List.flatMap_map]
  exact congrArg (List.flatMap · lines) (funext fun line => String.toList_append)

/-- Lines give their pieces under this condition, whatever follows them. -/
structure BlockReads (condition : Prop) (lines : List String) (pieces : List (List Piece)) :
    Prop where
  reads : ReadsWhen condition .code (unlines lines).toList (pieces.flatMap (· ++ [.lineEnd])) .code
  within : ∀ line ∈ pieces, .lineEnd ∉ line

variable {lines lines' : List String}

theorem BlockReads.append (h : BlockReads A lines b) (h' : BlockReads B lines' b') :
    BlockReads (A ∧ B) (lines ++ lines') (b ++ b') where
  reads := by
    rw [unlines_append, String.toList_append, List.flatMap_append]
    exact h.reads.append h'.reads
  within := by
    intro line hline
    exact (List.mem_append.1 hline).elim (h.within line) (h'.within line)

theorem BlockReads.congr (h : BlockReads A lines b) (hcondition : A ↔ B) :
    BlockReads B lines b where
  reads := h.reads.congr hcondition
  within := h.within

theorem blockReads_line {line : String}
    (h : ReadsWhen A .code (line.toList ++ ['\n']) (k ++ [.lineEnd]) .code) (hk : .lineEnd ∉ k) :
    BlockReads A [line] [k] where
  reads := by
    rw [toList_unlines, List.flatMap_singleton, List.flatMap_singleton]
    exact h
  within := by
    rwa [List.forall_mem_singleton]

theorem lineEnd_not_mem_codeOf (text : String) : .lineEnd ∉ codeOf text := by
  simp [codeOf]

theorem blockReads_bare (line : String) (h : Bare line.toList) :
    BlockReads True [line] [codeOf line] := by
  refine blockReads_line ?_ (lineEnd_not_mem_codeOf line)
  exact ((readsWhen_bare h).append (readsWhen_step rfl)).congr (and_self_iff)

theorem blockReads_flatMap {α : Type} {condition : α → Prop} {text : α → List String}
    {pieces : α → List (List Piece)} (as : List α)
    (h : ∀ a ∈ as, BlockReads (condition a) (text a) (pieces a)) :
    BlockReads (∀ a ∈ as, condition a) (as.flatMap text) (as.flatMap pieces) := by
  induction as with
  | nil => exact ⟨(readsWhen_nil _).congr (by simp), by simp⟩
  | cons a as ih =>
    obtain ⟨ha, has⟩ := List.forall_mem_cons.1 h
    rw [List.flatMap_cons, List.flatMap_cons, List.forall_mem_cons]
    exact ha.append (ih has)

theorem blockReads_map {α : Type} {condition : α → Prop} {line : α → String}
    {pieces : α → List Piece} (as : List α)
    (h : ∀ a ∈ as, BlockReads (condition a) [line a] [pieces a]) :
    BlockReads (∀ a ∈ as, condition a) (as.map line) (as.map pieces) := by
  rw [List.map_eq_flatMap, List.map_eq_flatMap]
  exact blockReads_flatMap as h

theorem blockReads_code {lines : List String} (h : ∀ line ∈ lines, Bare line.toList) :
    BlockReads True lines (lines.map codeOf) := by
  have hread : BlockReads (∀ line ∈ lines, True) (lines.map id) (lines.map codeOf) :=
    blockReads_map lines fun line hline => blockReads_bare line (h line hline)
  rw [List.map_id] at hread
  exact hread.congr (iff_true_intro fun _ _ => trivial)

/-- **Lines give their pieces exactly when each of them does.** -/
theorem BlockReads.readLines_iff (h : BlockReads A lines b) :
    readLines (unlines lines) = some b ↔ A := by
  have hreads := h.reads [] []
  rw [List.append_nil, List.append_nil] at hreads
  rw [readLines, Option.bind_eq_some_iff]
  constructor
  · rintro ⟨pieces, hrun, hlines⟩
    rw [(linesOf_eq_some_iff.1 hlines).1] at hrun
    exact (hreads.1 hrun).1
  · intro hA
    exact ⟨_, hreads.2 ⟨hA, rfl⟩, linesOf_eq_some_iff.2 ⟨rfl, h.within⟩⟩

/-! ## 3. Joined lines -/

variable {s : List Char}

/-- A text with its lines joined: a backslash at the end of a line goes on in the next. -/
def spliced : List Char → List Char
  | '\\' :: '\n' :: rest => spliced rest
  | c :: rest => c :: spliced rest
  | [] => []

theorem spliced_front (rest : List Char) (h : '\\' ∉ s) :
    spliced (s ++ rest) = s ++ spliced rest := by
  induction s with
  | nil => rfl
  | cons c s ih =>
    rw [List.mem_cons, not_or] at h
    rw [List.cons_append, spliced, ih h.2, List.cons_append]
    rintro more rfl
    exact absurd rfl h.1

/-- A line that does not end in a backslash is left as it is. -/
theorem spliced_line {line : List Char} (rest : List Char) (h : '\n' ∉ line)
    (hlast : line.getLast? ≠ some '\\') :
    spliced (line ++ '\n' :: rest) = line ++ '\n' :: spliced rest := by
  induction line with
  | nil =>
    rw [List.nil_append, spliced]
    · rfl
    · rintro more hmore
      cases hmore
  | cons c line ih =>
    rw [List.mem_cons, not_or] at h
    have hlast' : line.getLast? ≠ some '\\' := by
      cases line with
      | nil => exact nofun
      | cons d line => rwa [List.getLast?_cons_cons] at hlast
    rw [List.cons_append, spliced, ih h.2 hlast', List.cons_append]
    rintro more rfl hmore
    cases line with
    | nil => exact hlast rfl
    | cons d line =>
      obtain ⟨rfl, -⟩ := List.cons.inj hmore
      exact h.2 List.mem_cons_self

/-- A line is not joined to the next, whatever follows. -/
def StaysApart (line : String) : Prop :=
  ∀ rest, spliced (line.toList ++ '\n' :: rest) = line.toList ++ '\n' :: spliced rest

theorem staysApart_of_not_mem {line : String} (h : '\\' ∉ line.toList) : StaysApart line := by
  intro rest
  rw [spliced_front _ h]
  exact congrArg _ (spliced_front (s := ['\n']) rest (by decide))

theorem staysApart_bare {line : String} (h : Bare line.toList) : StaysApart line :=
  staysApart_of_not_mem fun hmem => h _ hmem (by decide)

/-- **Where no line is joined to the next, joining leaves the text as it is.** -/
theorem spliced_unlines {lines : List String} (h : ∀ line ∈ lines, StaysApart line) :
    spliced (unlines lines).toList = (unlines lines).toList := by
  rw [toList_unlines]
  induction lines with
  | nil => rfl
  | cons line lines ih =>
    obtain ⟨hline, hlines⟩ := List.forall_mem_cons.1 h
    rw [List.flatMap_cons, List.append_assoc, List.singleton_append, hline, ih hlines]

end CText
end InteropTables
