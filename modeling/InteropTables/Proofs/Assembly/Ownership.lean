import InteropTables.Assembly.Load
import InteropTables.Proofs.Steps
import Mathlib.Data.List.Nodup

/-!
# Types and the methods they own

The runs of the types are cut where the next type begins. If no type begins in front of an earlier
one, the runs have no place in common, whatever else the column says; and if every type begins
somewhere, they leave out no place behind the first. The types that methods name are written down as
the lists are read, so they are as good as the lists.

* `methodRuns_cons`: the run of the first type, and those of the others;
* `Ascending`, `pairwise_flatten_methodRuns`: **the runs do not overlap**;
* `mem_flatten_methodRuns`: **the runs leave no place out**;
* `MethodList.Distinct`, `nodup_flatten_of_methodLists`: **so no method is listed twice**;
* `declaringTypes_cases`: **every method names a type that lists it**, if there is one;
* `Assembly.Assigned`, `exists_assigned`: a loaded module has its lists and types from there.
-/

namespace InteropTables

/-! ## 1. Runs -/

/-- Where types begin: behind those in front of them, or nowhere. -/
def Ascending (starts : List Nat) : Prop :=
  starts.Pairwise fun start later => later ≠ 0 → start ≤ later

instance (starts : List Nat) : Decidable (Ascending starts) :=
  inferInstanceAs (Decidable (starts.Pairwise _))

/-- The first run ends where the next type begins. -/
theorem methodRuns_cons (length start : Nat) (starts : List Nat) :
    methodRuns length (start :: starts)
      = methodRun length start (starts.headD (length + 1)) :: methodRuns length starts := by
  cases starts <;> rfl

/-- Every place in a run stands behind the beginning of a type. -/
theorem exists_start_le {length place : Nat} {starts : List Nat}
    (h : place ∈ (methodRuns length starts).flatten) :
    ∃ start ∈ starts, start ≠ 0 ∧ start ≤ place := by
  induction starts with
  | nil => cases h
  | cons start starts ih =>
    rw [methodRuns_cons, List.flatten_cons, List.mem_append] at h
    rcases h with h | h
    · obtain ⟨hzero, hle, -⟩ := mem_methodRun.1 h
      exact ⟨start, List.mem_cons_self .., hzero, hle⟩
    · obtain ⟨later, hmem, hlater⟩ := ih h
      exact ⟨later, List.mem_cons_of_mem _ hmem, hlater⟩

theorem pairwise_methodRun (length start stop : Nat) :
    (methodRun length start stop).Pairwise (· < ·) := by
  unfold methodRun
  split
  · exact .nil
  · exact List.pairwise_lt_range' 1

/-- **The runs do not overlap**: all their places rise. The first run ends where the second type
begins, and the other types begin there or later. -/
theorem pairwise_flatten_methodRuns (length : Nat) {starts : List Nat} (h : Ascending starts) :
    (methodRuns length starts).flatten.Pairwise (· < ·) := by
  induction starts with
  | nil => exact .nil
  | cons start starts ih =>
    have hrest : Ascending starts := (List.pairwise_cons.1 h).2
    rw [methodRuns_cons, List.flatten_cons, List.pairwise_append]
    refine ⟨pairwise_methodRun .., ih hrest, fun place hplace later hlater => ?_⟩
    obtain ⟨begin, hmem, hzero, hle⟩ := exists_start_le hlater
    obtain ⟨-, -, hstop, -⟩ := mem_methodRun.1 hplace
    cases starts with
    | nil => cases hmem
    | cons next starts =>
      have hnext : next ≤ begin := by
        rcases List.mem_cons.1 hmem with rfl | hmem
        · exact Nat.le_refl _
        · exact (List.pairwise_cons.1 hrest).1 begin hmem hzero
      exact Nat.lt_of_lt_of_le hstop (Nat.le_trans hnext hle)

/-- **The runs leave no place out** behind the beginning of the first type, if every type begins
somewhere. A place that the first run does not reach stands behind the beginning of the second. -/
theorem mem_flatten_methodRuns {length place : Nat} (hlength : place ≤ length) :
    ∀ {starts : List Nat} {first : Nat}, starts.head? = some first → first ≤ place →
      (∀ start ∈ starts, start ≠ 0) → place ∈ (methodRuns length starts).flatten
  | start :: starts, first, hhead, hle, hzero => by
    obtain rfl := Option.some.inj hhead
    obtain ⟨hstart, hzero⟩ := List.forall_mem_cons.1 hzero
    rw [methodRuns_cons, List.flatten_cons, List.mem_append]
    by_cases hstop : place < starts.headD (length + 1)
    · exact .inl (mem_methodRun.2 ⟨hstart, hle, hstop, hlength⟩)
    · cases starts with
      | nil => exact absurd (Nat.lt_succ_of_le hlength) hstop
      | cons next starts =>
        exact .inr (mem_flatten_methodRuns hlength rfl (Nat.le_of_not_lt hstop) hzero)

/-! ## 2. Lists -/

/-- No two places name the same method. -/
def MethodList.Distinct (list : MethodList) : Prop :=
  ∀ i j row, list.methodAt i = .ok row → list.methodAt j = .ok row → i = j

theorem MethodList.distinct_direct (length : Nat) : (direct length).Distinct :=
  fun _ _ _ hi hj => (Except.ok.inj hi).trans (Except.ok.inj hj).symm

/-- A place names the method with an index, which exists. -/
def MethodList.Names (list : MethodList) (methodCount place index : Nat) : Prop :=
  list.methodAt place = .ok (index + 1) ∧ index < methodCount

theorem names_of_listedMethod {list : MethodList} {methodCount number place index : Nat}
    (h : listedMethod list methodCount number place = .ok index) :
    list.Names methodCount place index := by
  obtain ⟨row, hrow, h⟩ := exists_of_bind_ok h
  split at h
  · rename_i hexists
    obtain rfl := Except.ok.inj h
    refine ⟨?_, by omega⟩
    rw [hrow, Nat.sub_add_cancel hexists.1]
  · cases h

section Lists

variable {list : MethodList} {methodCount : Nat} {starts : List Nat} {lists : List (List Nat)}

/-- The lists hold the methods that the places of the runs name, one for one. -/
theorem forall₂_of_methodLists (h : methodLists list methodCount starts = .ok lists) :
    List.Forall₂ (List.Forall₂ (list.Names methodCount)) (methodRuns list.length starts) lists := by
  have hall := mapM_eq_ok_iff.1 h
  rw [← List.zipIdx_map_fst 0 (methodRuns list.length starts), List.forall₂_map_left_iff]
  refine hall.imp fun run found hfound => ?_
  exact (mapM_eq_ok_iff.1 hfound).imp fun _ _ => names_of_listedMethod

theorem forall₂_flatten_of_methodLists (h : methodLists list methodCount starts = .ok lists) :
    List.Forall₂ (list.Names methodCount) (methodRuns list.length starts).flatten lists.flatten :=
  List.rel_flatten (forall₂_of_methodLists h)

/-- There is one list for each type. -/
theorem length_of_methodLists (h : methodLists list methodCount starts = .ok lists) :
    lists.length = starts.length := by
  rw [← (forall₂_of_methodLists h).length_eq]
  simp [methodRuns]
  omega

theorem methodLists_lt (h : methodLists list methodCount starts = .ok lists) :
    ∀ found ∈ lists, ∀ i ∈ found, i < methodCount := by
  intro found hfound i hi
  obtain ⟨_, -, hnames⟩ := exists_mem_of_forall₂ (forall₂_flatten_of_methodLists h).flip i
    (List.mem_flatten.2 ⟨found, hfound, hi⟩)
  exact hnames.2

/-- **No method is listed twice** if no type begins in front of an earlier one and no two places
name one method. -/
theorem nodup_flatten_of_methodLists (h : methodLists list methodCount starts = .ok lists)
    (hascending : Ascending starts) (hdistinct : list.Distinct) : lists.flatten.Nodup := by
  have hunique : Relator.BiUnique (list.Names methodCount) := by
    refine ⟨fun i j m hi hj => hdistinct i j _ hi.1 hj.1, fun i m n hm hn => ?_⟩
    exact Nat.succ.inj (Except.ok.inj (hm.1.symm.trans hn.1))
  have hplaces := pairwise_flatten_methodRuns list.length hascending
  exact (List.rel_nodup hunique (forall₂_flatten_of_methodLists h)).1 (hplaces.imp Nat.ne_of_lt)

end Lists

/-! ## 3. Types of methods -/

/-- The marks of a list of methods. -/
theorem getElem?_mark (value : Option Nat) (found : List Nat) (m : Nat) :
    ∀ marks : Array (Option Nat),
      (found.foldl (fun marks k => marks.setIfInBounds k value) marks)[m]?
        = if m ∈ found then marks[m]?.map fun _ => value else marks[m]? := by
  induction found with
  | nil => exact fun _ => rfl
  | cons k found ih =>
    intro marks
    rw [List.foldl_cons, ih, Array.getElem?_setIfInBounds]
    by_cases hk : k = m
    · subst hk
      by_cases hlt : k < marks.size
      · simp [hlt]
      · simp [hlt]
    · have hk' : m ≠ k := Ne.symm hk
      simp [hk, hk']

theorem foldl_mark_cases (m : Nat) (lists : List (List Nat)) :
    ∀ (first : Nat) (marks : Array (Option Nat)) (owner : Option Nat),
      ((lists.zipIdx first).foldl (fun marks (found, i) =>
        found.foldl (fun marks k => marks.setIfInBounds k (some i)) marks) marks)[m]? = some owner →
      (∃ t found, lists[t]? = some found ∧ m ∈ found ∧ owner = some (first + t)) ∨
      (marks[m]? = some owner ∧ ∀ found ∈ lists, m ∉ found) := by
  induction lists with
  | nil => exact fun _ _ _ h => .inr ⟨h, List.forall_mem_nil _⟩
  | cons found lists ih =>
    intro first marks owner h
    rw [List.zipIdx_cons, List.foldl_cons] at h
    rcases ih (first + 1) _ owner h with ⟨t, other, hother, hm, rfl⟩ | ⟨hmark, hrest⟩
    · exact .inl ⟨t + 1, other, hother, hm, by rw [Nat.add_assoc, Nat.add_comm 1]⟩
    · rw [getElem?_mark] at hmark
      split at hmark
      · rename_i hm
        obtain ⟨_, -, rfl⟩ := Option.map_eq_some_iff.1 hmark
        exact .inl ⟨0, found, rfl, hm, rfl⟩
      · rename_i hm
        exact .inr ⟨hmark, List.forall_mem_cons.2 ⟨hm, hrest⟩⟩

/-- **Every method names a type that lists it**, and none if there is none. The induction is on the
lists that are still to be read; a later one writes over the earlier ones. -/
theorem declaringTypes_cases {methodCount m : Nat} {lists : List (List Nat)} {owner : Option Nat}
    (h : (declaringTypes methodCount lists)[m]? = some owner) :
    (∃ t found, lists[t]? = some found ∧ m ∈ found ∧ owner = some t) ∨
    (owner = none ∧ ∀ found ∈ lists, m ∉ found) := by
  rcases foldl_mark_cases m lists 0 _ owner h with ⟨t, found, hfound, hm, howner⟩ | ⟨hmark, hrest⟩
  · exact .inl ⟨t, found, hfound, hm, by rw [howner, Nat.zero_add]⟩
  · rw [Array.getElem?_replicate] at hmark
    split at hmark
    · exact .inr ⟨(Option.some.inj hmark).symm, hrest⟩
    · cases hmark

theorem size_declaringTypes (methodCount : Nat) (lists : List (List Nat)) :
    (declaringTypes methodCount lists).size = methodCount := by
  refine List.foldlRecOn (motive := fun marks : Array (Option Nat) => marks.size = methodCount) _ _
    Array.size_replicate fun declaring hsize (found, i) _ => ?_
  refine List.foldlRecOn (motive := fun marks : Array (Option Nat) => marks.size = methodCount) _ _
    hsize fun marks hmarks k _ => ?_
  exact Array.size_setIfInBounds.trans hmarks

/-! ## 4. Loaded modules -/

section Rows

variable {tables : TableStream}

theorem length_allRows {ρ : Type} [TableRow ρ] {rows : List ρ} (h : tables.allRows ρ = .ok rows) :
    rows.length = (tables.table ρ).elim 0 Table.rowCount := by
  rw [TableStream.allRows] at h
  cases htable : tables.table ρ with
  | none =>
    rw [htable] at h
    rw [← Except.ok.inj h]
    rfl
  | some table =>
    rw [htable] at h
    rw [length_of_mapM_ok h, Table.length_rows]
    rfl

theorem size_readTypes {strings : StringHeap} {types : Array TypeInfo}
    (h : readTypes tables strings = .ok types) :
    types.size = (tables.table TypeDefRow).elim 0 Table.rowCount := by
  rw [readTypes] at h
  cases htable : tables.table TypeDefRow with
  | none =>
    rw [htable] at h
    rw [← Except.ok.inj h]
    rfl
  | some table =>
    rw [htable] at h
    obtain ⟨nested, _, h⟩ := exists_of_bind_ok h
    obtain ⟨rows, hrows, h⟩ := exists_of_bind_ok h
    obtain ⟨found, hfound, h⟩ := exists_of_bind_ok h
    rw [← Except.ok.inj h, List.size_toArray, length_of_mapM_ok hfound, length_of_mapM_ok hrows,
      Table.length_rows]
    rfl

end Rows

namespace Assembly

variable {tables : TableStream} {strings : StringHeap}

/-- The types of a module have their lists from given rows, and its methods their types from these
lists. -/
structure Assigned (a : Assembly) (tables : TableStream) (rows : List TypeDefRow)
    (lists : List (List Nat)) : Prop where
  read : tables.allRows TypeDefRow = .ok rows
  cut : methodLists (methodList tables) a.methods.size (rows.map (·.methodList)) = .ok lists
  types : a.types.toList.map (·.methods) = lists
  declaring : a.methods.map (·.declaring) = declaringTypes a.methods.size lists

/-- Methods that differ in what other tables say about them have the same types. -/
theorem Assigned.withMethods {a : Assembly} {rows : List TypeDefRow} {lists : List (List Nat)}
    (h : a.Assigned tables rows lists) {methods : Array Method}
    (hsame : methods.map (·.declaring) = a.methods.map (·.declaring)) :
    Assigned { a with methods } tables rows lists := by
  have hsize : methods.size = a.methods.size := by
    have hsizes := congrArg Array.size hsame
    rwa [Array.size_map, Array.size_map] at hsizes
  refine ⟨h.read, ?_, h.types, ?_⟩
  · show methodLists _ methods.size _ = _
    rw [hsize, h.cut]
  · show methods.map (·.declaring) = declaringTypes methods.size lists
    rw [hsame, hsize, h.declaring]

theorem Assigned.listed_lt {a : Assembly} {rows : List TypeDefRow} {lists : List (List Nat)}
    (h : a.Assigned tables rows lists) : ∀ t ∈ a.types, ∀ m ∈ t.methods, m < a.methods.size := by
  intro t ht m hm
  refine methodLists_lt h.cut t.methods ?_ m hm
  rw [← h.types]
  exact List.mem_map_of_mem (Array.mem_toList_iff.2 ht)

/-- What a change of a method keeps is kept of all methods. -/
theorem map_modify_of_keeps {β : Type} {g : Method → β} {f : Method → Method}
    (hf : ∀ m, g (f m) = g m) (methods : Array Method) (i : Nat) :
    (methods.modify i f).map g = methods.map g := by
  refine Array.ext (by simp) fun k hk hk' => ?_
  rw [Array.getElem_map, Array.getElem_map, Array.getElem_modify]
  split
  · exact hf _
  · rfl

theorem assigned_of_assignMethods {a b : Assembly} (h : a.assignMethods tables = .ok b)
    (htypes : a.types.size = (tables.table TypeDefRow).elim 0 Table.rowCount) :
    ∃ rows lists, b.Assigned tables rows lists := by
  obtain ⟨rows, hrows, h⟩ := exists_of_bind_ok h
  obtain ⟨lists, hlists, h⟩ := exists_of_bind_ok h
  obtain rfl := Except.ok.inj h
  have hsize : lists.length = a.types.size := by
    rw [length_of_methodLists hlists, List.length_map, length_allRows hrows, htypes]
  have hcount := size_declaringTypes a.methods.size lists
  refine ⟨rows, lists, hrows, ?_, ?_, ?_⟩
  · show methodLists _ (Array.zipWith _ _ _).size _ = _
    rw [Array.size_zipWith, hcount, Nat.min_self, hlists]
  · refine List.ext_getElem (by simp [hsize]) fun i hi hi' => ?_
    simp
  · show Array.map _ (Array.zipWith _ _ _) = declaringTypes (Array.zipWith _ _ _).size lists
    rw [Array.size_zipWith, hcount, Nat.min_self]
    refine Array.ext (by simp [hcount]) fun i hi hi' => ?_
    simp

/-- What holds of every method that a row gives holds of all methods that are read. -/
theorem forall_of_readMethods {P : Method → Prop} {blobs : BlobHeap}
    (hP : ∀ row m, readMethod strings blobs row = .ok m → P m) {methods : Array Method}
    (h : readMethods tables strings blobs = .ok methods) : ∀ m ∈ methods, P m := by
  unfold readMethods at h
  obtain ⟨found, hfound, h⟩ := exists_of_bind_ok h
  obtain rfl := Except.ok.inj h
  have hall : ∀ m ∈ found, P m := by
    refine forall_of_mapM_ok hfound fun row m hrow => ?_
    obtain ⟨row, -, hrow⟩ := exists_of_bind_ok hrow
    exact hP row m hrow
  exact fun m hm => hall m (List.mem_toArray.1 hm)

/-- Methods have neither a type nor an import nor attributes before these are looked up. -/
theorem fresh_of_readMethods {blobs : BlobHeap} {methods : Array Method}
    (h : readMethods tables strings blobs = .ok methods) :
    ∀ m ∈ methods, m.declaring = none ∧ m.imported = none ∧ m.attributes = #[] := by
  refine forall_of_readMethods (fun row m hrow => ?_) h
  obtain ⟨name, -, hrow⟩ := exists_of_bind_ok hrow
  obtain ⟨signature, -, hrow⟩ := exists_of_bind_ok hrow
  obtain rfl := Except.ok.inj hrow
  exact ⟨rfl, rfl, rfl⟩

/-- Assigning methods keeps all that the type of a method leaves alone. -/
theorem assignMethods_keeps {β : Type} {g : Method → β}
    (hg : ∀ m declaring, g { m with declaring } = g m) {a b : Assembly}
    (h : a.assignMethods tables = .ok b) : b.methods.map g = a.methods.map g := by
  obtain ⟨rows, -, h⟩ := exists_of_bind_ok h
  obtain ⟨lists, -, h⟩ := exists_of_bind_ok h
  obtain rfl := Except.ok.inj h
  have hcount := size_declaringTypes a.methods.size lists
  refine Array.ext (by simp [hcount]) fun k hk hk' => ?_
  rw [Array.getElem_map, Array.getElem_map, Array.getElem_zipWith, hg]

/-- Binding imports keeps all that an import of a method leaves alone. -/
theorem bindImports_keeps {β : Type} {g : Method → β}
    (hg : ∀ m found, g { m with imported := some found } = g m) {a b : Assembly}
    (h : a.bindImports tables strings = .ok b) :
    ∃ methods, b = { a with methods } ∧ methods.map g = a.methods.map g := by
  obtain ⟨methods, hmethods, h⟩ := exists_of_bind_ok h
  refine ⟨methods, (Except.ok.inj h).symm, ?_⟩
  refine foldlM_keeps (P := fun m => m.map g = a.methods.map g)
    (fun before row after hstep hsame => ?_) hmethods rfl
  obtain ⟨row, -, hstep⟩ := exists_of_bind_ok hstep
  unfold bindImport at hstep
  split at hstep
  · split at hstep
    · obtain ⟨found, -, hstep⟩ := exists_of_bind_ok hstep
      rw [← Except.ok.inj hstep]
      refine (map_modify_of_keeps ?_ ..).trans hsame
      exact fun m => hg m found
    · cases hstep
  · rw [← Except.ok.inj hstep, hsame]

theorem attachAttributes_keeps (a : Assembly) (uses : List AttributeUse) :
    (a.attachAttributes uses).methods.map (·.declaring) = a.methods.map (·.declaring) := by
  refine List.foldlRecOn (motive := fun methods : Array Method => methods.map (·.declaring) = _)
    uses AttributeUse.apply rfl fun methods hsame use _ => ?_
  cases use with
  | applied index value =>
    refine (map_modify_of_keeps ?_ ..).trans hsame
    exact fun _ => rfl
  | _ => exact hsame

/-- A module without its attributes has its types and methods from the rows, then the lists, and
last the imports. -/
theorem exists_of_loadStructure {strings : StringHeap} {blobs : BlobHeap} {a : Assembly}
    (h : loadStructure tables strings blobs = .ok a) :
    ∃ b c : Assembly, readTypes tables strings = .ok b.types ∧
      readMethods tables strings blobs = .ok b.methods ∧ b.assignMethods tables = .ok c ∧
      c.bindImports tables strings = .ok a := by
  unfold loadStructure at h
  obtain ⟨identity, -, h⟩ := exists_of_bind_ok h
  obtain ⟨references, -, h⟩ := exists_of_bind_ok h
  obtain ⟨specifications, -, h⟩ := exists_of_bind_ok h
  obtain ⟨types, htypes, h⟩ := exists_of_bind_ok h
  obtain ⟨methods, hmethods, h⟩ := exists_of_bind_ok h
  obtain ⟨c, hc, h⟩ := exists_of_bind_ok h
  exact ⟨_, c, htypes, hmethods, hc, h⟩

/-- **A loaded module has its lists and types from the rows**: what is read after them leaves both
alone. -/
theorem exists_assigned {streams : MetadataStreams} {a : Assembly} {events : List Event}
    (h : ofStreams streams = .ok (a, events)) :
    ∃ tables rows lists, streams.tables = some tables ∧ a.Assigned tables rows lists := by
  rw [ofStreams] at h
  cases htables : streams.tables with
  | none =>
    rw [htables] at h
    cases h
  | some tables =>
    cases hstrings : streams.strings with
    | none =>
      rw [htables, hstrings] at h
      cases h
    | some strings =>
      rw [htables, hstrings] at h
      obtain ⟨b, hb, h⟩ := exists_of_bind_ok h
      obtain ⟨rfl, -⟩ := Prod.mk.inj (Except.ok.inj h)
      obtain ⟨before, c, htypes, -, hc, hb⟩ := exists_of_loadStructure hb
      obtain ⟨rows, lists, hassigned⟩ := assigned_of_assignMethods hc (size_readTypes htypes)
      obtain ⟨bound, rfl, hbound⟩ :=
        bindImports_keeps (g := (·.declaring)) (fun _ _ => rfl) hb
      refine ⟨tables, rows, lists, rfl, ?_⟩
      exact (hassigned.withMethods hbound).withMethods (attachAttributes_keeps _ _)

end Assembly

end InteropTables
