import InteropTables.Proofs.Blocks
import InteropTables.Assembly.MethodLists

/-!
# Method lists one behind the other

If the methods of a module stand in the order of its types, every type says where its methods begin
by the number of methods in front of them. The lists are then cut back exactly, also those of types
without methods, and every method finds its type.

* `startsFrom`, `runsFrom`: where the lists of types with so many methods begin, and the lists;
* `methodLists_startsFrom`: **the lists are cut back**;
* `owners`, `declaringTypes_runsFrom`: **every method is listed by its own type and no other.**
-/

namespace InteropTables

/-! ## 1. Lists -/

/-- How many methods the types have together. -/
def methodTotal (counts : List Nat) : Nat :=
  counts.foldr (· + ·) 0

/-- Where the methods of types begin, if `before` methods stand in front of them. -/
def startsFrom : (before : Nat) → (counts : List Nat) → List Nat
  | _, [] => []
  | before, count :: counts => (before + 1) :: startsFrom (before + count) counts

/-- The indices of the methods of each type. -/
def runsFrom : (before : Nat) → (counts : List Nat) → List (List Nat)
  | _, [] => []
  | before, count :: counts => List.range' before count :: runsFrom (before + count) counts

/-- A run that ends inside the list is not cut. -/
theorem methodRun_eq {length before count : Nat} (h : before + count ≤ length) :
    methodRun length (before + 1) (before + count + 1) = List.range' (before + 1) count := by
  rw [methodRun]
  split
  · rename_i hempty
    have hcount : count = 0 := by omega
    rw [hcount]
    rfl
  · rw [Nat.min_eq_left (by omega)]
    congr 1
    omega

/-- Every run ends where the next one begins, and the last one at the end of the list. The induction
is on the types. -/
theorem zipWith_methodRun (counts : List Nat) :
    ∀ before length, before + methodTotal counts = length →
      (startsFrom before counts).zipWith (methodRun length)
          ((startsFrom before counts).drop 1 ++ [length + 1])
        = (runsFrom before counts).map fun run => run.map (· + 1) := by
  induction counts with
  | nil =>
    intro before length _
    rfl
  | cons count counts ih =>
    intro before length hlength
    have htotal : before + count + methodTotal counts = length := by
      rw [← hlength, Nat.add_assoc]
      rfl
    have hrun : methodRun length (before + 1) (before + count + 1)
        = List.range' (before + 1) count := methodRun_eq (by omega)
    have hmore := ih (before + count) length htotal
    have hplaces : (List.range' before count).map (· + 1) = List.range' (before + 1) count := by
      simp only [Nat.add_comm _ 1]
      exact List.map_add_range' ..
    rw [runsFrom, List.map_cons, hplaces, ← hmore, ← hrun]
    cases counts with
    | nil =>
      have hend : length + 1 = before + count + 1 := congrArg (· + 1) htotal.symm
      show [methodRun length (before + 1) (length + 1)] = [methodRun length _ _]
      rw [hend]
    | cons next counts => rfl

theorem lt_of_mem_runsFrom {counts : List Nat} {before k : Nat} {run : List Nat}
    (hrun : run ∈ runsFrom before counts) (hk : k ∈ run) : k < before + methodTotal counts := by
  induction counts generalizing before with
  | nil => cases hrun
  | cons count counts ih =>
    have htotal : methodTotal (count :: counts) = count + methodTotal counts := rfl
    rw [runsFrom, List.mem_cons] at hrun
    rcases hrun with rfl | hrun
    · have := List.mem_range'_1.1 hk
      omega
    · have := ih hrun
      omega

/-- **The lists are cut back**, when the places are the method rows themselves. -/
theorem methodLists_startsFrom (counts : List Nat) :
    methodLists (.direct (methodTotal counts)) (methodTotal counts) (startsFrom 0 counts)
      = .ok (runsFrom 0 counts) := by
  have hruns := zipWith_methodRun counts 0 (methodTotal counts) (Nat.zero_add _)
  have hlisted : ∀ run ∈ (runsFrom 0 counts).map fun run => run.map (· + 1), ∀ i,
      run.mapM (listedMethod (.direct (methodTotal counts)) (methodTotal counts) i)
        = .ok (run.map (· - 1)) := by
    intro places hplaces i
    obtain ⟨run, hrun, rfl⟩ := List.mem_map.1 hplaces
    refine mapM_ok fun place hplace => ?_
    obtain ⟨k, hk, rfl⟩ := List.mem_map.1 hplace
    have hlt := lt_of_mem_runsFrom hrun hk
    show (if 1 ≤ k + 1 ∧ k + 1 ≤ methodTotal counts then _ else _) = _
    rw [if_pos (by omega)]
    rfl
  rw [methodLists, methodRuns, MethodList.length, hruns]
  refine (mapM_ok (g := fun run => run.1.map (· - 1)) ?_).trans ?_
  · rintro ⟨run, i⟩ hmem
    exact hlisted run (List.fst_mem_of_mem_zipIdx hmem) (i + 1)
  · have hback : ∀ run : List Nat, (run.map (· + 1)).map (· - 1) = run := by
      intro run
      rw [List.map_map]
      exact List.map_id' run
    have hall : ((runsFrom 0 counts).map fun run => run.map (· + 1)).map
        (fun run => run.map (· - 1)) = runsFrom 0 counts := by
      rw [List.map_map]
      refine (List.map_congr_left fun run _ => hback run).trans (List.map_id' _)
    conv => rhs; rw [← hall, ← List.zipIdx_map_fst 0 ((runsFrom 0 counts).map _), List.map_map]
    rfl

/-! ## 2. Types of methods -/

/-- For every method the index of its type, if the types counted from `index` on have so many
methods. -/
def owners : (index : Nat) → (counts : List Nat) → List (Option Nat)
  | _, [] => []
  | index, count :: counts => List.replicate count (some index) ++ owners (index + 1) counts

/-- Marking the methods of one run. The induction is on their number; the methods in front are
done. -/
theorem foldl_mark (value : Option Nat) (count : Nat) :
    ∀ done behind : List (Option Nat),
      (List.range' done.length count).foldl (fun marks i => marks.setIfInBounds i value)
          (done ++ (List.replicate count none ++ behind)).toArray
        = (done ++ (List.replicate count value ++ behind)).toArray := by
  induction count with
  | zero =>
    intro done behind
    rfl
  | succ count ih =>
    intro done behind
    have hset : (done ++ (List.replicate (count + 1) none ++ behind)).toArray.setIfInBounds
          done.length value
        = ((done ++ [value]) ++ (List.replicate count none ++ behind)).toArray := by
      rw [List.setIfInBounds_toArray, List.replicate_succ, List.cons_append,
        List.set_append_right _ _ (Nat.le_refl _), Nat.sub_self, List.set_cons_zero,
        List.append_assoc]
      rfl
    have hmore := ih (done ++ [value]) behind
    rw [List.length_append] at hmore
    rw [List.range'_succ, List.foldl_cons, hset]
    refine hmore.trans ?_
    rw [List.replicate_succ, List.append_assoc]
    rfl

/-- The induction is on the types; the methods of the types in front are done. -/
theorem foldl_runs (counts : List Nat) :
    ∀ (index : Nat) (done : List (Option Nat)),
      ((runsFrom done.length counts).zipIdx index).foldl (fun marks (run, i) =>
          run.foldl (fun marks k => marks.setIfInBounds k (some i)) marks)
          (done ++ List.replicate (methodTotal counts) none).toArray
        = (done ++ owners index counts).toArray := by
  induction counts with
  | nil =>
    intro index done
    rfl
  | cons count counts ih =>
    intro index done
    have hmark := foldl_mark (some index) count done (List.replicate (methodTotal counts) none)
    have hmore := ih (index + 1) (done ++ List.replicate count (some index))
    rw [List.length_append, List.length_replicate, List.append_assoc] at hmore
    rw [runsFrom, List.zipIdx_cons, List.foldl_cons]
    show List.foldl _ (List.foldl _
      (done ++ List.replicate (count + methodTotal counts) none).toArray
      (List.range' done.length count)) _ = _
    rw [← List.replicate_append_replicate, hmark, hmore, owners, List.append_assoc]

/-- **Every method is listed by its own type and no other.** -/
theorem declaringTypes_runsFrom (counts : List Nat) :
    declaringTypes (methodTotal counts) (runsFrom 0 counts) = (owners 0 counts).toArray := by
  have hruns := foldl_runs counts 0 []
  rw [declaringTypes, ← List.toArray_replicate]
  exact hruns

end InteropTables
