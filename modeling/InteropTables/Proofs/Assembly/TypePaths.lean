import InteropTables.Assembly.Nesting
import InteropTables.Proofs.Steps
import Mathlib.Logic.Relation

/-!
# Paths through nested types

The rows of a table may lie inside each other. From a row the way leads outwards, from each row to
the one around it, and it ends at the top level, at a row that does not exist, or never. If it ends
at the top level and all texts on it can be read, then these texts spell a path, and a path has one
name.

* `TypePath`: the outermost type and the types on the way in; `TypePath.toName`: its names;
* `plus_mem_full`: **the full name of a nested type holds a plus sign**;
* `Nesting`, `Nesting.Chain`: which row lies around which, and the rows around one up to the top;
* `Nesting.Spells`: the texts on the way are those of a path;
* `Chain.unique`, `Chain.not_circular`: **a chain that ends is the only one, and runs in no
  circle**;
* `Nesting.Names`: one step of a naming; `Nesting.Exact`: what a whole naming gives, and when;
* `Names.isExact`: **a naming that takes these steps is exact.**
-/

namespace InteropTables

/-! ## 1. Paths -/

/-- The way from outside to a type. -/
structure TypePath where
  /-- The namespace of the outermost type. -/
  space : String
  outermost : String
  /-- The simple names of the further types, each inside the one before. -/
  inner : List String
deriving DecidableEq, Repr

namespace TypePath

variable (p : TypePath)

/-- All simple names from the outside in. -/
def names : List String :=
  p.outermost :: p.inner

/-- The simple name of the type itself. -/
def name : String :=
  p.inner.getLastD p.outermost

/-- The full name: the outermost type behind its namespace, and each further type behind a plus
sign. -/
def full : String :=
  p.inner.foldl (fun around name => around ++ "+" ++ name) (joinName p.space p.outermost)

/-- The names of the type. -/
def toName : TypeName :=
  ⟨p.space, p.name, p.full⟩

/-- The path of a type inside. -/
def inside (name : String) : TypePath :=
  { p with inner := p.inner ++ [name] }

/-- The type lies in another one. -/
def IsNested : Prop :=
  p.inner ≠ []

variable {p}

/-- From the inside out, the type inside comes first. -/
theorem reverse_names_inside (name : String) :
    (p.inside name).names.reverse = name :: p.names.reverse := by
  simp [names, inside]

theorem toName_inside (name : String) : (p.inside name).toName = p.toName.nestedIn name := by
  simp [toName, inside, TypePath.name, full, TypeName.nestedIn]

/-- A nested type lies in the type that the rest of its path leads to. -/
theorem exists_inside (h : p.IsNested) : ∃ (q : TypePath) (name : String), p = q.inside name := by
  obtain ⟨front, last, hinner⟩ := (List.eq_nil_or_concat p.inner).resolve_left h
  refine ⟨{ p with inner := front }, last, ?_⟩
  rw [inside, ← List.concat_eq_append, ← hinner]

theorem full_of_not_isNested (h : ¬ p.IsNested) : p.full = joinName p.space p.outermost := by
  rw [full, not_not.1 h]
  rfl

theorem name_of_not_isNested (h : ¬ p.IsNested) : p.name = p.outermost := by
  rw [name, not_not.1 h]
  rfl

/-- **The full name of a nested type holds a plus sign.** -/
theorem plus_mem_full (h : p.IsNested) : '+' ∈ p.full.toList := by
  obtain ⟨q, name, rfl⟩ := exists_inside h
  have hfull : (q.inside name).full = q.full ++ "+" ++ name :=
    congrArg TypeName.full (toName_inside name)
  rw [hfull]
  simp

end TypePath

/-! ## 2. Rows around rows -/

/-- How the rows of a table lie inside each other, and which texts they have. -/
structure Nesting (ρ : Type) where
  /-- The number of the row around a row; none for a row at the top level. -/
  around? : ρ → Option Nat
  /-- The row with a number, if there is one. -/
  row? : Nat → Option ρ
  /-- The place of the simple name. -/
  name : ρ → Nat
  /-- The place of the namespace. -/
  space : ρ → Nat
  /-- The namespaces of all rows are read, and not of those at the top level only. -/
  readsSpaces : Prop

namespace Nesting

variable {ρ : Type} (n : Nesting ρ)

/-- The table has such a row. -/
def IsRow (r : ρ) : Prop :=
  ∃ number, n.row? number = some r

/-- The first row lies directly in the second one. -/
def Inside (r outer : ρ) : Prop :=
  ∃ number, n.around? r = some number ∧ n.row? number = some outer

/-- The rows around a row, from the inside out, when the last of them is at the top level. -/
inductive Chain : ρ → List ρ → Prop where
  | top {r : ρ} (htop : n.around? r = none) : Chain r []
  | step {r outer : ρ} {outers : List ρ} (hinside : n.Inside r outer)
    (hrest : Chain outer outers) : Chain r (outer :: outers)

/-- The texts of a row and of the rows around it are read, and are those of a path. The names of the
path are taken from the inside out, like the rows. -/
structure Spells (strings : StringHeap) (r : ρ) (outers : List ρ) (p : TypePath) : Prop where
  names : List.Forall₂ (fun row text => strings.get (n.name row) = .ok text)
    (r :: outers) p.names.reverse
  space : strings.get (n.space (outers.getLastD r)) = .ok p.space
  spaces : n.readsSpaces → ∀ row ∈ r :: outers, ∃ text, strings.get (n.space row) = .ok text

variable {n} {r r' outer : ρ} {outers : List ρ}

theorem Inside.unique {outer' : ρ} (h : n.Inside r outer) (h' : n.Inside r outer') :
    outer = outer' := by
  obtain ⟨number, haround, hrow⟩ := h
  obtain ⟨number', haround', hrow'⟩ := h'
  obtain rfl := Option.some.inj (haround.symm.trans haround')
  exact Option.some.inj (hrow.symm.trans hrow')

theorem Inside.not_top (h : n.Inside r outer) : n.around? r ≠ none := by
  obtain ⟨number, haround, -⟩ := h
  rw [haround]
  exact Option.some_ne_none number

namespace Chain

/-- **There is at most one chain.** -/
theorem unique {outers' : List ρ} (h : n.Chain r outers) (h' : n.Chain r outers') :
    outers = outers' := by
  induction h generalizing outers' with
  | top htop =>
    cases h' with
    | top => rfl
    | step hinside => exact absurd htop hinside.not_top
  | step hinside _ ih =>
    cases h' with
    | top htop => exact absurd htop hinside.not_top
    | step hinside' hrest' =>
      obtain rfl := hinside.unique hinside'
      rw [ih hrest']

/-- The row around a row has the rest of its chain. -/
theorem of_inside (h : n.Chain r outers) (hinside : n.Inside r outer) :
    ∃ rest, n.Chain outer rest ∧ outers = outer :: rest := by
  cases h with
  | top htop => exact absurd htop hinside.not_top
  | step hinside' hrest =>
    obtain rfl := hinside.unique hinside'
    exact ⟨_, hrest, rfl⟩

/-- A row further out has a shorter chain. -/
theorem shorter (h : n.Chain r outers) (hout : Relation.TransGen n.Inside r r') :
    ∃ rest, n.Chain r' rest ∧ rest.length < outers.length := by
  induction hout with
  | single hinside =>
    obtain ⟨rest, hrest, rfl⟩ := h.of_inside hinside
    exact ⟨rest, hrest, by simp⟩
  | tail _ hinside ih =>
    obtain ⟨before, hbefore, hlt⟩ := ih
    obtain ⟨rest, hrest, rfl⟩ := hbefore.of_inside hinside
    exact ⟨rest, hrest, by simp at hlt; omega⟩

/-- **A chain that ends meets no circle.** Round a circle it would be shorter than itself. -/
theorem not_circular (h : n.Chain r outers) (hout : Relation.ReflTransGen n.Inside r r') :
    ¬ Relation.TransGen n.Inside r' r' := by
  intro hcircle
  have hchain : ∃ rest, n.Chain r' rest := by
    rcases Relation.reflTransGen_iff_eq_or_transGen.1 hout with rfl | hout
    · exact ⟨outers, h⟩
    · obtain ⟨rest, hrest, -⟩ := h.shorter hout
      exact ⟨rest, hrest⟩
  obtain ⟨rest, hrest⟩ := hchain
  obtain ⟨rest', hrest', hlt⟩ := hrest.shorter hcircle
  rw [hrest.unique hrest'] at hlt
  exact Nat.lt_irrefl _ hlt

end Chain

/-! ## 3. Texts on the way -/

section Spells

variable {strings : StringHeap} {p : TypePath}

theorem spells_nil_iff : n.Spells strings r [] p ↔ ∃ space name,
    strings.get (n.space r) = .ok space ∧ strings.get (n.name r) = .ok name ∧
      p = ⟨space, name, []⟩ := by
  constructor
  · rintro ⟨hnames, hspace, -⟩
    obtain ⟨space, outermost, inner⟩ := p
    obtain rfl : inner = [] := by
      have hlength := hnames.length_eq
      simp only [TypePath.names, List.length_reverse, List.length_cons, List.length_nil] at hlength
      exact List.eq_nil_of_length_eq_zero (by omega)
    rcases hnames with _ | ⟨hname, -⟩
    exact ⟨space, outermost, hspace, hname, rfl⟩
  · rintro ⟨space, name, hspace, hname, rfl⟩
    refine ⟨.cons hname .nil, hspace, fun _ row hrow => ?_⟩
    rw [List.mem_singleton.1 hrow]
    exact ⟨space, hspace⟩

theorem spells_cons_iff : n.Spells strings r (outer :: outers) p ↔ ∃ q name,
    n.Spells strings outer outers q ∧ strings.get (n.name r) = .ok name ∧
      (n.readsSpaces → ∃ text, strings.get (n.space r) = .ok text) ∧ p = q.inside name := by
  constructor
  · rintro ⟨hnames, hspace, hspaces⟩
    have hnested : p.IsNested := by
      intro hinner
      have hlength := hnames.length_eq
      simp [TypePath.names, hinner] at hlength
    obtain ⟨q, name, rfl⟩ := TypePath.exists_inside hnested
    rw [TypePath.reverse_names_inside] at hnames
    rcases hnames with _ | ⟨hname, hnames⟩
    refine ⟨q, name, ⟨hnames, ?_, fun hread => ?_⟩, hname, fun hread => ?_, rfl⟩
    · rwa [List.getLastD_cons] at hspace
    · exact (List.forall_mem_cons.1 (hspaces hread)).2
    · exact (List.forall_mem_cons.1 (hspaces hread)).1
  · rintro ⟨q, name, ⟨hnames, hspace, hspaces⟩, hname, hread, rfl⟩
    refine ⟨?_, ?_, fun h => List.forall_mem_cons.2 ⟨hread h, hspaces h⟩⟩
    · rw [TypePath.reverse_names_inside]
      exact .cons hname hnames
    · rwa [List.getLastD_cons]

end Spells

/-! ## 4. Namings -/

/-- A naming follows the rows around a row, with room for so many rows. It reads what it needs of a
row and puts the names together on the way back. -/
structure Names (n : Nesting ρ) (strings : StringHeap)
    (naming : (room : Nat) → ρ → Except Fault TypeName) : Prop where
  refused : ∀ r, ∃ e, naming 0 r = .error e
  topLevel : ∀ room r, n.IsRow r → n.around? r = none → ∀ found,
    naming (room + 1) r = .ok found ↔ ∃ space name,
      strings.get (n.space r) = .ok space ∧ strings.get (n.name r) = .ok name ∧
      found = .topLevel space name
  nested : ∀ room r number, n.IsRow r → n.around? r = some number → ∀ found,
    naming (room + 1) r = .ok found ↔ ∃ outer around name, n.row? number = some outer ∧
      naming room outer = .ok around ∧ strings.get (n.name r) = .ok name ∧
      (n.readsSpaces → ∃ text, strings.get (n.space r) = .ok text) ∧ found = around.nestedIn name

/-- What the naming of a row gives, and when it fails: it succeeds exactly if the chain of the row
ends after at most so many rows and its texts are those of a path, and gives the names of this. -/
structure Exact (n : Nesting ρ) (strings : StringHeap) (most : Nat)
    (outcome : Except Fault TypeName) (r : ρ) : Prop where
  ok_iff : ∀ found, outcome = .ok found ↔ ∃ outers p, n.Chain r outers ∧ outers.length ≤ most ∧
    n.Spells strings r outers p ∧ found = p.toName
  circular : ∀ r', Relation.ReflTransGen n.Inside r r' → Relation.TransGen n.Inside r' r' →
    ∃ e, outcome = .error e
  longer : ∀ outers, n.Chain r outers → most < outers.length → ∃ e, outcome = .error e

variable {strings : StringHeap} {naming : (room : Nat) → ρ → Except Fault TypeName}

/-- The induction is on the room, which shrinks with every row around. -/
theorem Names.ok_iff (h : n.Names strings naming) {room : Nat} (hr : n.IsRow r)
    {found : TypeName} :
    naming room r = .ok found ↔ ∃ outers p, n.Chain r outers ∧ outers.length < room ∧
      n.Spells strings r outers p ∧ found = p.toName := by
  induction room generalizing r found with
  | zero =>
    obtain ⟨e, he⟩ := h.refused r
    rw [he]
    exact iff_of_false (fun h => nomatch h) fun ⟨_, _, _, hlt, _⟩ => Nat.not_lt_zero _ hlt
  | succ room ih =>
    cases haround : n.around? r with
    | none =>
      rw [h.topLevel room r hr haround]
      constructor
      · rintro ⟨space, name, hspace, hname, rfl⟩
        exact ⟨[], ⟨space, name, []⟩, .top haround, Nat.succ_pos _,
          spells_nil_iff.2 ⟨space, name, hspace, hname, rfl⟩, rfl⟩
      · rintro ⟨outers, p, hchain, -, hspells, rfl⟩
        obtain rfl := hchain.unique (.top haround)
        obtain ⟨space, name, hspace, hname, rfl⟩ := spells_nil_iff.1 hspells
        exact ⟨space, name, hspace, hname, rfl⟩
    | some number =>
      rw [h.nested room r number hr haround]
      constructor
      · rintro ⟨outer, around, name, hrow, hnaming, hname, hread, rfl⟩
        obtain ⟨outers, q, hchain, hlt, hspells, rfl⟩ := (ih ⟨number, hrow⟩).1 hnaming
        refine ⟨outer :: outers, q.inside name, .step ⟨number, haround, hrow⟩ hchain,
          Nat.succ_lt_succ hlt, ?_, (TypePath.toName_inside name).symm⟩
        exact spells_cons_iff.2 ⟨q, name, hspells, hname, hread, rfl⟩
      · rintro ⟨outers, p, hchain, hlt, hspells, rfl⟩
        cases hchain with
        | top htop => cases haround.symm.trans htop
        | @step _ outer rest hinside hrest =>
          obtain ⟨number', haround', hrow⟩ := hinside
          obtain rfl := Option.some.inj (haround.symm.trans haround')
          obtain ⟨q, name, hq, hname, hread, rfl⟩ := spells_cons_iff.1 hspells
          have hnaming := (ih ⟨number, hrow⟩).2
            ⟨rest, q, hrest, Nat.lt_of_succ_lt_succ hlt, hq, rfl⟩
          exact ⟨outer, q.toName, name, hrow, hnaming, hname, hread, TypePath.toName_inside name⟩

/-- **A naming that takes these steps is exact.** -/
theorem Names.isExact (h : n.Names strings naming) (most : Nat) (hr : n.IsRow r) :
    n.Exact strings most (naming (most + 1) r) r := by
  have hok : ∀ found, naming (most + 1) r = .ok found ↔ ∃ outers p, n.Chain r outers ∧
      outers.length ≤ most ∧ n.Spells strings r outers p ∧ found = p.toName := by
    intro found
    simp only [h.ok_iff hr, Nat.lt_succ_iff]
  -- A naming that succeeds tells the chain, so one without a fitting chain fails.
  have herror : (∀ outers, n.Chain r outers → ¬ outers.length ≤ most) →
      ∃ e, naming (most + 1) r = .error e := by
    intro hnone
    cases hfound : naming (most + 1) r with
    | error e => exact ⟨e, rfl⟩
    | ok found =>
      obtain ⟨outers, _, hchain, hle, -⟩ := (hok found).1 hfound
      exact absurd hle (hnone outers hchain)
  refine ⟨hok, fun r' hout hcircle => herror fun outers hchain _ => ?_,
    fun outers hchain hlt => herror fun outers' hchain' hle => ?_⟩
  · exact hchain.not_circular hout hcircle
  · rw [hchain'.unique hchain] at hle
    omega

end Nesting

end InteropTables
