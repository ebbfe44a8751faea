import Mathlib.Data.List.Induction
import Mathlib.Data.List.Nodup
import Mathlib.Data.List.Sort

/-!
# Lists in order and lists without repetition

What is printed is put in order first, and then written once for each text. Both keep as much of the
given order as they can, and this is what fixes the outcome.

* `isLE_total`, `pairwise_mergeSort`: sorting by a comparison puts in order;
* `filter_mergeSort`: **sorting keeps the order of elements that compare alike**;
* `eq_of_filter_eq`: **what is in order is told by the elements of each kind**, a kind being the
  elements that compare alike;
* `mergeSort_filter`, `mergeSort_concat`: sorting a part of a list, and a list with one more
  element;
* `FirstOccurrences`: the elements of a list, each once, in the order of their first occurrences;
* `firstOccurrences_eraseDups`: **dropping repetitions leaves the first occurrences**;
* `eraseDups_perm`, `eraseDups_append_cons_of_mem`: what it leaves of the elements in another order,
  and of a list with a repetition;
* `eq_of_mem_of_nodup_flatten`: lists that repeat nothing have nothing in common;
* `exists_first_repetition`: a list that repeats something has a first element that does;
* `append_cons_inj`, `append_cons_inj_of_last`: a list is cut in one way at the first or the last
  occurrence of an element.
-/

namespace InteropTables

variable {α : Type}

/-! ## 1. Order -/

section Order

variable (cmp : α → α → Ordering)

theorem isLE_total [Std.OrientedCmp cmp] (a b : α) : (cmp a b).isLE ∨ (cmp b a).isLE := by
  have hswap : cmp b a = (cmp a b).swap := Std.OrientedCmp.eq_swap
  rw [hswap]
  cases cmp a b
  · exact .inl rfl
  · exact .inl rfl
  · exact .inr rfl

variable [Std.TransCmp cmp]

theorem pairwise_mergeSort (l : List α) :
    (l.mergeSort fun a b => (cmp a b).isLE).Pairwise fun a b => (cmp a b).isLE := by
  refine List.pairwise_mergeSort ?_ ?_ l
  · intro a b c hab hbc
    exact Std.TransCmp.isLE_trans hab hbc
  · intro a b
    rw [Bool.or_eq_true]
    exact isLE_total cmp a b

/-- **Sorting keeps the order of elements that compare alike.** They are a sorted part of the list,
so they are found in the sorted list as they are; and there are no others there. -/
theorem filter_mergeSort {p : α → Bool} (hp : ∀ a b, p a → p b → (cmp a b).isLE) (l : List α) :
    (l.mergeSort fun a b => (cmp a b).isLE).filter p = l.filter p := by
  have hordered : (l.filter p).Pairwise fun a b => (cmp a b).isLE := by
    refine List.pairwise_of_forall_mem_list fun a ha b hb => ?_
    exact hp a b (List.mem_filter.1 ha).2 (List.mem_filter.1 hb).2
  have hpart : (l.filter p).Sublist (l.mergeSort fun a b => (cmp a b).isLE) := by
    refine List.sublist_mergeSort ?_ ?_ hordered List.filter_sublist
    · intro a b c hab hbc
      exact Std.TransCmp.isLE_trans hab hbc
    · intro a b
      rw [Bool.or_eq_true]
      exact isLE_total cmp a b
  have hfound : (l.filter p).Sublist ((l.mergeSort fun a b => (cmp a b).isLE).filter p) := by
    have hfilter := hpart.filter p
    rwa [List.filter_filter, List.filter_congr fun a _ => Bool.and_self (p a)] at hfilter
  have hperm := (List.mergeSort_perm l fun a b => (cmp a b).isLE).filter p
  exact (hfound.eq_of_length hperm.length_eq.symm).symm

section Kinds

variable {cmp} {l l' : List α}

theorem isLE_of_mem_cons {a b : α} (h : (a :: l).Pairwise fun a b => (cmp a b).isLE)
    (hb : b ∈ a :: l) : (cmp a b).isLE := by
  rcases List.mem_cons.1 hb with rfl | hb
  · exact Std.ReflCmp.isLE_rfl
  · exact (List.pairwise_cons.1 h).1 b hb

theorem isLE_of_kind {a b c : α} (hb : cmp a b == .eq) (hc : cmp a c == .eq) : (cmp b c).isLE := by
  have hba : cmp b a = .eq := Std.OrientedCmp.eq_symm (beq_iff_eq.1 hb)
  rw [Std.TransCmp.congr_left hba, beq_iff_eq.1 hc]
  rfl

/-- Lists that hold the same elements of each kind hold the same elements. -/
theorem mem_iff_of_filter_eq
    (h : ∀ a, l.filter (fun b => cmp a b == .eq) = l'.filter fun b => cmp a b == .eq) (a : α) :
    a ∈ l ↔ a ∈ l' := by
  have hself : (cmp a a == .eq) = true := beq_iff_eq.2 Std.ReflCmp.compare_self
  have ha : a ∈ l.filter (fun b => cmp a b == .eq) ↔ a ∈ l'.filter fun b => cmp a b == .eq := by
    rw [h a]
  simpa only [List.mem_filter, hself, and_true] using ha

variable (cmp) in
/-- **Lists in order are the same if of each kind they hold the same elements in the same order.**
Each list begins with an element of its least kind, so both begin with elements of one kind, and
these are the first of that kind. -/
theorem eq_of_filter_eq (hl : l.Pairwise fun a b => (cmp a b).isLE)
    (hl' : l'.Pairwise fun a b => (cmp a b).isLE)
    (h : ∀ a, l.filter (fun b => cmp a b == .eq) = l'.filter fun b => cmp a b == .eq) : l = l' := by
  induction l generalizing l' with
  | nil =>
    cases l' with
    | nil => rfl
    | cons b l' =>
      exact absurd ((mem_iff_of_filter_eq h b).2 (List.mem_cons_self ..)) List.not_mem_nil
  | cons a l ih =>
    cases l' with
    | nil => exact absurd ((mem_iff_of_filter_eq h a).1 (List.mem_cons_self ..)) List.not_mem_nil
    | cons b l' =>
      have hab : (cmp a b).isLE :=
        isLE_of_mem_cons hl ((mem_iff_of_filter_eq h b).2 (List.mem_cons_self ..))
      have hba : (cmp b a).isLE :=
        isLE_of_mem_cons hl' ((mem_iff_of_filter_eq h a).1 (List.mem_cons_self ..))
      have hkind : cmp a b = .eq := Std.OrientedCmp.isLE_antisymm hab hba
      obtain rfl : a = b := by
        have hfirst := h a
        simp only [List.filter_cons, Std.ReflCmp.compare_self, hkind, beq_self_eq_true,
          if_true] at hfirst
        exact (List.cons.inj hfirst).1
      rw [ih hl.of_cons hl'.of_cons fun c => ?_]
      have hc := h c
      rw [List.filter_cons, List.filter_cons] at hc
      split at hc
      · exact (List.cons.inj hc).2
      · exact hc

end Kinds

theorem filter_kind_mergeSort (a : α) (l : List α) :
    (l.mergeSort fun a b => (cmp a b).isLE).filter (fun b => cmp a b == .eq)
      = l.filter fun b => cmp a b == .eq :=
  filter_mergeSort cmp (fun _ _ hb hc => isLE_of_kind hb hc) l

/-- Sorting may come before or after a filter. -/
theorem mergeSort_filter (p : α → Bool) (l : List α) :
    (l.filter p).mergeSort (fun a b => (cmp a b).isLE)
      = (l.mergeSort fun a b => (cmp a b).isLE).filter p := by
  refine eq_of_filter_eq cmp (pairwise_mergeSort cmp _) ((pairwise_mergeSort cmp l).filter p)
    fun a => ?_
  rw [filter_kind_mergeSort, List.filter_comm, List.filter_comm _ p, filter_kind_mergeSort]

/-- A list in order is cut in one place by an element: what stands behind it is greater. -/
theorem exists_cut {l : List α} (hl : l.Pairwise fun a b => (cmp a b).isLE) (c : α) :
    ∃ front behind, l = front ++ behind ∧ (∀ a ∈ front, (cmp a c).isLE) ∧
      ∀ b ∈ behind, ¬ (cmp b c).isLE := by
  induction l with
  | nil => exact ⟨[], [], rfl, List.forall_mem_nil _, List.forall_mem_nil _⟩
  | cons a l ih =>
    by_cases hac : (cmp a c).isLE
    · obtain ⟨front, behind, rfl, hfront, hbehind⟩ := ih hl.of_cons
      exact ⟨a :: front, behind, rfl, List.forall_mem_cons.2 ⟨hac, hfront⟩, hbehind⟩
    · refine ⟨[], a :: l, rfl, List.forall_mem_nil _, fun b hb hbc => hac ?_⟩
      exact Std.TransCmp.isLE_trans (isLE_of_mem_cons hl hb) hbc

/-- **A new element at the end of a list is put behind all that are not greater.** -/
theorem mergeSort_concat (l : List α) (c : α) : ∃ front behind,
    l.mergeSort (fun a b => (cmp a b).isLE) = front ++ behind ∧
    (l ++ [c]).mergeSort (fun a b => (cmp a b).isLE) = front ++ c :: behind ∧
    ∀ a ∈ l, (cmp a c).isLE → a ∈ front := by
  have hordered := pairwise_mergeSort cmp l
  obtain ⟨front, behind, hsplit, hle, hgreater⟩ := exists_cut cmp hordered c
  rw [hsplit] at hordered
  obtain ⟨hfront, hbehind, hcross⟩ := List.pairwise_append.1 hordered
  refine ⟨front, behind, hsplit, ?_, fun a ha hac => ?_⟩
  · refine eq_of_filter_eq cmp (pairwise_mergeSort cmp _) ?_ fun a => ?_
    · refine List.pairwise_append.2 ⟨hfront, List.pairwise_cons.2 ⟨fun b hb => ?_, hbehind⟩,
        fun a ha b hb => ?_⟩
      · exact (isLE_total cmp c b).resolve_right (hgreater b hb)
      · rcases List.mem_cons.1 hb with rfl | hb
        · exact hle a ha
        · exact hcross a ha b hb
    · rw [filter_kind_mergeSort, List.filter_append, ← filter_kind_mergeSort, hsplit]
      by_cases hac : cmp a c == .eq
      · have hnone : behind.filter (fun b => cmp a b == .eq) = [] :=
          List.filter_eq_nil_iff.2 fun b hb hab => hgreater b hb (isLE_of_kind hab hac)
        simp only [List.filter_append, List.filter_cons, hnone, hac, if_true, List.filter_nil,
          List.append_nil]
      · simp only [List.filter_append, List.filter_cons, hac, Bool.false_eq_true, if_false,
          List.filter_nil, List.append_nil]
  · have hmem := (List.mergeSort_perm l fun a b => (cmp a b).isLE).mem_iff.2 ha
    rw [hsplit] at hmem
    rcases List.mem_append.1 hmem with h | h
    · exact h
    · exact absurd hac (hgreater a h)

end Order

/-! ## 2. First occurrences -/

section FirstOccurrences

variable [BEq α]

/-- A list holds the elements of another list, each once, in the order of their first occurrences
there. As the places of these rise, none occurs twice. -/
structure FirstOccurrences (once all : List α) : Prop where
  mem_iff : ∀ a, a ∈ once ↔ a ∈ all
  ordered : once.Pairwise fun a b => all.idxOf a < all.idxOf b

variable [LawfulBEq α]

/-- First occurrences stand in the order of the list. -/
theorem FirstOccurrences.pairwise {R : α → α → Prop} {once all : List α}
    (h : FirstOccurrences once all) (hall : all.Pairwise R) :
    once.Pairwise fun a b => R a b ∧ a ≠ b := by
  refine h.ordered.imp_of_mem fun {a b} ha hb hlt => ⟨?_, ?_⟩
  · have ha := List.idxOf_lt_length_of_mem ((h.mem_iff a).1 ha)
    have hb := List.idxOf_lt_length_of_mem ((h.mem_iff b).1 hb)
    have hR := List.pairwise_iff_getElem.1 hall _ _ ha hb hlt
    rwa [List.getElem_idxOf, List.getElem_idxOf] at hR
  · rintro rfl
    exact Nat.lt_irrefl _ hlt

/-- What a filter lets pass first occurs in the same order behind it. -/
theorem idxOf_lt_of_filter {p : α → Bool} {a b : α} (hb : p b) {l : List α}
    (h : (l.filter p).idxOf a < (l.filter p).idxOf b) : l.idxOf a < l.idxOf b := by
  induction l with
  | nil => exact h
  | cons c l ih =>
    rw [List.idxOf_cons, List.idxOf_cons]
    by_cases hca : c == a
    · rw [hca, cond_true]
      by_cases hcb : c == b
      · rw [← eq_of_beq hca, ← eq_of_beq hcb] at h
        exact absurd h (Nat.lt_irrefl _)
      · rw [Bool.not_eq_true] at hcb
        rw [hcb, cond_false]
        exact Nat.succ_pos _
    · by_cases hcb : c == b
      · rw [List.filter_cons_of_pos (eq_of_beq hcb ▸ hb), List.idxOf_cons, List.idxOf_cons, hcb,
          cond_true] at h
        exact absurd h (Nat.not_lt_zero _)
      · rw [Bool.not_eq_true] at hca hcb
        rw [hca, hcb, cond_false, cond_false]
        refine Nat.succ_lt_succ (ih ?_)
        by_cases hc : p c
        · rw [List.filter_cons_of_pos hc, List.idxOf_cons, List.idxOf_cons, hca, hcb, cond_false,
            cond_false] at h
          exact Nat.lt_of_succ_lt_succ h
        · rwa [List.filter_cons_of_neg hc] at h

/-- **Dropping repetitions leaves the first occurrences.** The first element is one, and behind it
only the elements that differ from it are looked at. -/
theorem firstOccurrences_eraseDups : ∀ l : List α, FirstOccurrences l.eraseDups l
  | [] => ⟨fun _ => Iff.rfl, .nil⟩
  | a :: l => by
    refine ⟨fun _ => List.mem_eraseDups, ?_⟩
    have hrest := (firstOccurrences_eraseDups (l.filter fun b => !b == a)).ordered
    rw [List.eraseDups_cons, List.pairwise_cons]
    have hother : ∀ b ∈ (l.filter fun b => !b == a).eraseDups, (!b == a) = true := fun b hb =>
      (List.mem_filter.1 (List.mem_eraseDups.1 hb)).2
    have hidx : ∀ b, (!b == a) = true → (a :: l).idxOf b = l.idxOf b + 1 := by
      intro b hb
      have hne : (a == b) = false := by
        rw [BEq.comm]
        exact Bool.not_eq_true' _ ▸ hb
      rw [List.idxOf_cons, hne, cond_false]
    constructor
    · intro b hb
      rw [hidx b (hother b hb), List.idxOf_cons_self]
      exact Nat.succ_pos _
    · refine hrest.imp_of_mem fun {b c} hb hc hlt => ?_
      rw [hidx b (hother b hb), hidx c (hother c hc)]
      exact Nat.succ_lt_succ (idxOf_lt_of_filter (p := fun d => !d == a) (hother c hc) hlt)
termination_by l => l.length
decreasing_by
  exact Nat.lt_succ_of_le (List.length_filter_le ..)

theorem nodup_eraseDups (l : List α) : l.eraseDups.Nodup := by
  refine (firstOccurrences_eraseDups l).ordered.imp fun {a b} hlt hab => ?_
  rw [hab] at hlt
  exact Nat.lt_irrefl _ hlt

/-- Lists of the same elements, in whatever order, have the same elements without repetitions. -/
theorem eraseDups_perm {l l' : List α} (h : l.Perm l') : l.eraseDups.Perm l'.eraseDups := by
  refine (List.perm_ext_iff_of_nodup (nodup_eraseDups l) (nodup_eraseDups l')).2 fun a => ?_
  rw [List.mem_eraseDups, List.mem_eraseDups, h.mem_iff]

/-- A repetition is dropped, wherever it stands behind the first occurrence. -/
theorem eraseDups_append_cons_of_mem {front : List α} {a : α} (ha : a ∈ front) (behind : List α) :
    (front ++ a :: behind).eraseDups = (front ++ behind).eraseDups := by
  rw [List.eraseDups_append, List.eraseDups_append, List.cons_removeAll, if_neg]
  simpa using ha

end FirstOccurrences

/-! ## 3. Cuts -/

/-- An element of lists without repetition is in one of them only. -/
theorem eq_of_mem_of_nodup_flatten {lists : List (List α)} (h : lists.flatten.Nodup)
    {i j : Nat} {l l' : List α} (hi : lists[i]? = some l) (hj : lists[j]? = some l') {x : α}
    (hx : x ∈ l) (hx' : x ∈ l') : i = j := by
  have hdisjoint := List.pairwise_iff_getElem.1 (List.nodup_flatten.1 h).2
  obtain ⟨hilt, rfl⟩ := List.getElem?_eq_some_iff.1 hi
  obtain ⟨hjlt, rfl⟩ := List.getElem?_eq_some_iff.1 hj
  rcases Nat.lt_trichotomy i j with hlt | heq | hlt
  · exact absurd hx' (hdisjoint i j hilt hjlt hlt hx)
  · exact heq
  · exact absurd hx (hdisjoint j i hjlt hilt hlt hx')

/-- In a list that repeats something, as far as a function tells, there is a first element that is a
repetition. -/
theorem exists_first_repetition {β : Type} {f : α → β} {l : List α} (h : ¬ (l.map f).Nodup) :
    ∃ front a behind, l = front ++ a :: behind ∧ (front.map f).Nodup ∧ f a ∈ front.map f := by
  induction l using List.reverseRecOn with
  | nil => exact absurd List.nodup_nil h
  | append_singleton l a ih =>
    by_cases hfront : (l.map f).Nodup
    · refine ⟨l, a, [], rfl, hfront, ?_⟩
      by_contra ha
      refine h ?_
      rw [List.map_append, List.map_singleton, ← List.concat_eq_append]
      exact hfront.concat ha
    · obtain ⟨front, b, behind, rfl, hnodup, hb⟩ := ih hfront
      exact ⟨front, b, behind ++ [a], List.append_assoc .., hnodup, hb⟩

section Cuts

variable {c : α} {l l' m m' : List α}

/-- The first occurrence of an element cuts a list in one way. -/
theorem append_cons_inj (hl : c ∉ l) (hl' : c ∉ l') (h : l ++ c :: m = l' ++ c :: m') :
    l = l' ∧ m = m' := by
  induction l generalizing l' with
  | nil =>
    cases l' with
    | nil => exact ⟨rfl, (List.cons.inj h).2⟩
    | cons a l' => exact absurd (List.mem_cons.2 (.inl (List.cons.inj h).1)) hl'
  | cons a l ih =>
    cases l' with
    | nil => exact absurd (List.mem_cons.2 (.inl (List.cons.inj h).1.symm)) hl
    | cons a' l' =>
      obtain ⟨rfl, hrest⟩ := List.cons.inj h
      obtain ⟨rfl, hm⟩ := ih (fun hc => hl (List.mem_cons_of_mem _ hc))
        (fun hc => hl' (List.mem_cons_of_mem _ hc)) hrest
      exact ⟨rfl, hm⟩

/-- So does the last one. -/
theorem append_cons_inj_of_last (hm : c ∉ m) (hm' : c ∉ m') (h : l ++ c :: m = l' ++ c :: m') :
    l = l' ∧ m = m' := by
  have hreverse := congrArg List.reverse h
  simp only [List.reverse_append, List.reverse_cons, List.append_assoc, List.singleton_append]
    at hreverse
  obtain ⟨hmm, hll⟩ := append_cons_inj (mt List.mem_reverse.1 hm) (mt List.mem_reverse.1 hm')
    hreverse
  exact ⟨List.reverse_inj.1 hll, List.reverse_inj.1 hmm⟩

end Cuts

end InteropTables
