import InteropTables.Proofs.Lists
import InteropTables.Text.Path

/-!
# Steps of paths

A path below another has one step more, and so the order of the paths below a folder is that of the
steps that lead there.

* `Path.splitOn_append_cons`, `Path.splitOn_of_not_mem`: the parts of a text with a separator in it,
  and of one without;
* `Path.IsName`: the names that an entry of a folder can have;
* `Path.parts_join`: **a path below another has its name as a further step**;
* `Path.below`, `Path.parts_below`: the same for any number of steps;
* `Path.Before`: the order of paths, by their steps; `Path.before_below_iff`: below one path it is
  the order of the steps behind it;
* `Path.eq_of_before`: **paths in strict order are told by what they are.**
-/

namespace InteropTables

namespace Path

/-! ## 1. Parts of a text -/

variable {separator : Char}

theorem splitOn_cons_of_ne {c : Char} (h : c ≠ separator) (text : List Char) :
    ∃ part rest, splitOn separator text = part :: rest ∧
      splitOn separator (c :: text) = (c :: part) :: rest := by
  obtain ⟨part, rest, hparts⟩ := List.exists_cons_of_ne_nil (splitOn_ne_nil separator text)
  refine ⟨part, rest, hparts, ?_⟩
  rw [splitOn, List.foldr_cons, if_neg h]
  rw [splitOn] at hparts
  rw [hparts]

theorem splitOn_cons_self (text : List Char) :
    splitOn separator (separator :: text) = [] :: splitOn separator text := by
  rw [splitOn, List.foldr_cons, if_pos rfl]
  rfl

/-- The parts in front of a separator, and those behind it. -/
theorem splitOn_append_cons (front behind : List Char) :
    splitOn separator (front ++ separator :: behind)
      = splitOn separator front ++ splitOn separator behind := by
  induction front with
  | nil => exact splitOn_cons_self behind
  | cons c front ih =>
    rw [List.cons_append]
    by_cases hc : c = separator
    · rw [hc, splitOn_cons_self, splitOn_cons_self, ih, List.cons_append]
    · obtain ⟨part, rest, hparts, hcons⟩ := splitOn_cons_of_ne hc front
      obtain ⟨part', rest', hparts', hcons'⟩ := splitOn_cons_of_ne hc (front ++ separator :: behind)
      rw [ih, hparts, List.cons_append] at hparts'
      obtain ⟨rfl, rfl⟩ := List.cons.inj hparts'
      rw [hcons, hcons', List.cons_append]

/-- A text without a separator is its only part. -/
theorem splitOn_of_not_mem {text : List Char} (h : separator ∉ text) :
    splitOn separator text = [text] := by
  induction text with
  | nil => rfl
  | cons c text ih =>
    obtain ⟨hc, htext⟩ := List.ne_and_not_mem_of_not_mem_cons h
    obtain ⟨part, rest, hparts, hcons⟩ := splitOn_cons_of_ne (Ne.symm hc) text
    rw [ih htext] at hparts
    obtain ⟨rfl, rfl⟩ := List.cons.inj hparts
    exact hcons

/-! ## 2. Paths below a path -/

/-- The names that an entry of a folder can have: one step of a path, and not the one that leads to
the folder above. -/
structure IsName (name : String) : Prop where
  whole : '/' ∉ name.toList
  step : isStep name.toList = true
  down : name ≠ up

theorem parts_of_isName {name : String} (h : IsName name) : parts name = [name] := by
  rw [parts, splitOn_of_not_mem h.whole, List.filter_singleton, h.step, cond_true,
    List.map_singleton, String.ofList_toList]

/-- **A path below another has its name as a further step.** -/
theorem parts_join (folder : String) {name : String} (h : IsName name) :
    parts (join folder name) = parts folder ++ [name] := by
  have hlast : ((splitOn '/' name.toList).filter isStep).map String.ofList = [name] :=
    parts_of_isName h
  unfold join
  split
  · -- the last part of the folder is empty, and the name takes its place
    rename_i hslash
    obtain ⟨front, hfront⟩ := List.getLast?_eq_some_iff.1 (eq_of_beq hslash)
    have hempty : ((splitOn '/' ([] : List Char)).filter isStep).map String.ofList = [] := rfl
    rw [parts, parts, String.toList_append, hfront, List.append_assoc, List.singleton_append,
      splitOn_append_cons, splitOn_append_cons, List.filter_append, List.filter_append,
      List.map_append, List.map_append, hlast, hempty, List.append_nil]
  · have htext : (folder ++ "/" ++ name).toList = folder.toList ++ '/' :: name.toList := by
      rw [String.toList_append, String.toList_append, List.append_assoc]
      rfl
    rw [parts, parts, htext, splitOn_append_cons, List.filter_append, List.map_append, hlast]

/-- The path that steps below a path lead to. -/
def below (path : String) (steps : List String) : String :=
  steps.foldl join path

theorem parts_below {steps : List String} (h : ∀ name ∈ steps, IsName name) (path : String) :
    parts (below path steps) = parts path ++ steps := by
  induction steps generalizing path with
  | nil => rw [below, List.foldl_nil, List.append_nil]
  | cons name steps ih =>
    obtain ⟨hname, hsteps⟩ := List.forall_mem_cons.1 h
    rw [below, List.foldl_cons]
    exact (ih hsteps _).trans (by rw [parts_join path hname, List.append_assoc]; rfl)

/-! ## 3. The order of paths -/

/-- One path comes before another: the first step in which they differ does, or there are no more
steps in it. -/
def Before (path path' : String) : Prop :=
  compare (parts path) (parts path') = .lt

theorem compare_append (front : List String) (steps steps' : List String) :
    compare (front ++ steps) (front ++ steps') = compare steps steps' := by
  induction front with
  | nil => rfl
  | cons name front ih =>
    have hself : compare name name = .eq := Std.ReflCmp.compare_self
    rw [List.cons_append, List.cons_append, List.compare_cons_cons, hself, ih]
    rfl

/-- Below one path the order is that of the steps behind it. -/
theorem before_below_iff {steps steps' : List String} (h : ∀ name ∈ steps, IsName name)
    (h' : ∀ name ∈ steps', IsName name) (path : String) :
    Before (below path steps) (below path steps') ↔ compare steps steps' = .lt := by
  rw [Before, parts_below h, parts_below h', compare_append]

theorem not_before_of_before {path path' : String} (h : Before path path') : ¬ Before path' path :=
  Std.OrientedCmp.not_lt_of_lt h

theorem nodup_of_before {l : List String} (h : l.Pairwise Before) : l.Nodup := by
  refine List.Pairwise.imp ?_ h
  rintro a b hab rfl
  exact not_before_of_before hab hab

/-- **Paths in strict order are told by what they are.** -/
theorem eq_of_before {l l' : List String} (hl : l.Pairwise Before) (hl' : l'.Pairwise Before)
    (h : ∀ path, path ∈ l ↔ path ∈ l') : l = l' := by
  have hperm := (List.perm_ext_iff_of_nodup (nodup_of_before hl) (nodup_of_before hl')).2 h
  exact hperm.eq_of_pairwise (fun _ _ _ _ hab hba => absurd hba (not_before_of_before hab)) hl hl'

end Path

end InteropTables
