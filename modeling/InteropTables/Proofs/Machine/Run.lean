import InteropTables.Fault
import InteropTables.Bytes

/-!
# Runs on a machine of words

The library computes with numbers of any size and with look-ups that may fail. A machine has words
of a fixed size and memory of a fixed extent: there a sum may leave its word and a place may lie
beyond the end, and neither is an outcome of the library. Here such an operation is a `Trap`, so
that the absence of traps can be stated and proved.

* `Trap`, `Run`: what stops a machine at once, and a computation that may be stopped;
* `add`, `sub`, `mul`, `shiftLeft`, `shiftRight`, `entry`, `setEntry`, `part`, `level`: the
  operations that may trap, each with the lemma that says when it does not;
* `Follows`: **a run is not stopped and has the outcome of a computation of the library**;
* `Follows.bind`, `Follows.ite`, `Follows.mapM`, `Follows.foldlM`: the relation is kept by the ways
  in which runs are put together.

Shifts by a fixed amount below the size of the word never trap and are not listed.
-/

namespace InteropTables

namespace Machine

variable {α β γ δ σ τ : Type}

/-! ## 1. Traps and runs -/

/-- The ways in which an operation stops a machine. -/
inductive Trap where
  /-- A result that its word does not hold. -/
  | overflow
  /-- A difference below zero. -/
  | underflow
  /-- A shift by all bits of the word or more. -/
  | shift
  /-- A place beyond the end of a block or a list. -/
  | outOfRange
  /-- A depth beyond its limit. -/
  | tooDeep
  /-- A repetition that goes on when its data are used up. -/
  | endless
deriving DecidableEq, Repr

/-- A run: it is stopped, or it has an outcome. -/
def Run (α : Type) : Type :=
  Except Trap (Except Fault α)

namespace Run

/-- The run with a given outcome. -/
def of (outcome : Except Fault α) : Run α :=
  .ok outcome

/-- The run that is stopped. -/
def trap (t : Trap) : Run α :=
  .error t

/-- The run that fails. -/
def fail (e : Fault) : Run α :=
  of (.error e)

instance : Monad Run where
  pure a := of (.ok a)
  bind x f :=
    match x with
    | .error t => trap t
    | .ok (.error e) => fail e
    | .ok (.ok a) => f a

@[simp] theorem pure_then (a : α) (f : α → Run β) : (pure a >>= f) = f a := rfl

instance : LawfulMonad Run := LawfulMonad.mk' Run
  (by
    intro α x
    match x with
    | .error _ => rfl
    | .ok (.error _) => rfl
    | .ok (.ok _) => rfl)
  (fun _ _ => rfl)
  (by
    intro α β γ x f g
    match x with
    | .error _ => rfl
    | .ok (.error _) => rfl
    | .ok (.ok _) => rfl)

/-- The outcome of a run as a value, so that the next step may look at a failure. -/
def attempt : Run α → Run (Except Fault α)
  | .error t => trap t
  | .ok outcome => pure outcome

end Run

/-! ## 2. Operations that may trap -/

/-- A sum in a word of `width` bytes. -/
def add (width a b : Nat) : Run Nat :=
  if a + b < wordCount width then pure (a + b) else .trap .overflow

/-- A difference. -/
def sub (a b : Nat) : Run Nat :=
  if b ≤ a then pure (a - b) else .trap .underflow

/-- A product in a word of `width` bytes. -/
def mul (width a b : Nat) : Run Nat :=
  if a * b < wordCount width then pure (a * b) else .trap .overflow

/-- The bits of a word of `width` bytes moved up; those beyond the word are lost. -/
def shiftLeft (width a bits : Nat) : Run Nat :=
  if bits < 8 * width then pure (a <<< bits % wordCount width) else .trap .shift

/-- The bits of a word of `width` bytes moved down. -/
def shiftRight (width a bits : Nat) : Run Nat :=
  if bits < 8 * width then pure (a >>> bits) else .trap .shift

/-- The element at a place that must exist. -/
def entry (xs : Array α) (i : Nat) : Run α :=
  match xs[i]? with
  | some x => pure x
  | none => .trap .outOfRange

/-- The list with another element at a place that must exist. -/
def setEntry (xs : Array α) (i : Nat) (x : α) : Run (Array α) :=
  if i < xs.size then pure (xs.setIfInBounds i x) else .trap .outOfRange

/-- The bytes from `start` up to `stop`, which must lie inside the block. -/
def part (data : ByteArray) (start stop : Nat) : Run ByteArray :=
  if start ≤ stop ∧ stop ≤ data.size then pure (data.extract start stop) else .trap .outOfRange

/-- The bytes from `start` on. -/
def behind (data : ByteArray) (start : Nat) : Run ByteArray :=
  part data start data.size

/-- A depth that must not be beyond a limit. -/
def level (limit depth : Nat) : Run Unit :=
  if depth ≤ limit then pure () else .trap .tooDeep

theorem add_of_lt {width a b : Nat} (h : a + b < wordCount width) :
    add width a b = pure (a + b) := if_pos h

theorem sub_of_le {a b : Nat} (h : b ≤ a) : sub a b = pure (a - b) := if_pos h

theorem mul_of_lt {width a b : Nat} (h : a * b < wordCount width) :
    mul width a b = pure (a * b) := if_pos h

theorem shiftLeft_of_lt {width a bits : Nat} (h : bits < 8 * width) :
    shiftLeft width a bits = pure (a <<< bits % wordCount width) := if_pos h

theorem shiftRight_of_lt {width a bits : Nat} (h : bits < 8 * width) :
    shiftRight width a bits = pure (a >>> bits) := if_pos h

theorem entry_of_some {xs : Array α} {i : Nat} {x : α} (h : xs[i]? = some x) :
    entry xs i = pure x := by
  rw [entry, h]

theorem setEntry_of_lt {xs : Array α} {i : Nat} {x : α} (h : i < xs.size) :
    setEntry xs i x = pure (xs.setIfInBounds i x) := if_pos h

theorem part_of_le {data : ByteArray} {start stop : Nat} (h : start ≤ stop)
    (hstop : stop ≤ data.size) : part data start stop = pure (data.extract start stop) :=
  if_pos ⟨h, hstop⟩

theorem behind_of_le {data : ByteArray} {start : Nat} (h : start ≤ data.size) :
    behind data start = pure (data.extract start data.size) :=
  part_of_le h (Nat.le_refl _)

theorem level_of_le {limit depth : Nat} (h : depth ≤ limit) : level limit depth = pure () :=
  if_pos h

/-- How many numbers a word of four bytes tells apart. -/
theorem wordCount_four : wordCount 4 = 4294967296 := rfl

/-- How many numbers a word of eight bytes tells apart. -/
theorem wordCount_eight : wordCount 8 = 18446744073709551616 := rfl

/-! ## 3. Runs and computations of the library -/

/-- A run is not stopped and has the outcome of a computation: the same failure, or a related
value. -/
def Follows (R : α → β → Prop) (x : Run α) : Except Fault β → Prop
  | .ok b => ∃ a, x = pure a ∧ R a b
  | .error e => x = .fail e

theorem follows_pure {R : α → β → Prop} {a : α} {b : β} (h : R a b) :
    Follows R (pure a) (.ok b) := ⟨a, rfl, h⟩

theorem follows_fail {R : α → β → Prop} (e : Fault) : Follows R (.fail e) (.error e) := rfl

theorem follows_of (y : Except Fault α) : Follows Eq (.of y) y := by
  cases y with
  | ok a => exact ⟨a, rfl, rfl⟩
  | error e => rfl

namespace Follows

variable {R : α → β → Prop} {S : γ → δ → Prop} {x : Run α} {y : Except Fault β}

/-- A run that follows a computation exactly is known. -/
theorem eq {x : Run α} {y : Except Fault α} (h : Follows Eq x y) : x = .of y := by
  cases y with
  | ok a =>
    obtain ⟨_, rfl, rfl⟩ := h
    rfl
  | error e => exact h

theorem mono {Q : α → β → Prop} (h : Follows R x y) (hmore : ∀ a b, R a b → Q a b) :
    Follows Q x y := by
  cases y with
  | ok b =>
    obtain ⟨a, rfl, hR⟩ := h
    exact ⟨a, rfl, hmore a b hR⟩
  | error e => exact h

/-- **A step behind another one follows when both do.** -/
theorem bind {f : α → Run γ} {g : β → Except Fault δ} (h : Follows R x y)
    (hmore : ∀ a b, y = .ok b → R a b → Follows S (f a) (g b)) :
    Follows S (x >>= f) (y >>= g) := by
  cases y with
  | ok b =>
    obtain ⟨a, rfl, hR⟩ := h
    exact hmore a b rfl hR
  | error e =>
    have hx : x = .fail e := h
    rw [hx]
    exact follows_fail e

/-- A step behind one that follows exactly. -/
theorem bind_eq {x : Run α} {y : Except Fault α} {f : α → Run γ} {g : α → Except Fault δ}
    (h : Follows Eq x y) (hmore : ∀ a, y = .ok a → Follows S (f a) (g a)) :
    Follows S (x >>= f) (y >>= g) := by
  refine h.bind fun a b hy hab => ?_
  subst hab
  exact hmore a hy

/-- Both sides decide in the same way. -/
theorem ite {p : Prop} [Decidable p] {x' : Run α} {y' : Except Fault β}
    (hpos : p → Follows R x y) (hneg : ¬p → Follows R x' y') :
    Follows R (if p then x else x') (if p then y else y') := by
  by_cases hp : p
  · rw [if_pos hp, if_pos hp]
    exact hpos hp
  · rw [if_neg hp, if_neg hp]
    exact hneg hp

/-- Both sides make the same check; past it, the condition does not hold. -/
theorem check {p : Prop} [Decidable p] {e : Fault} (h : ¬p → Follows R x y) :
    Follows R (if p then .fail e else x) (if p then .error e else y) :=
  ite (fun _ => follows_fail e) h

/-- The library may go on with the value where the machine is done. -/
theorem map_right {T : α → δ → Prop} {g : β → δ} (h : Follows R x y)
    (hmore : ∀ a b, R a b → T a (g b)) : Follows T x (y >>= fun b => pure (g b)) := by
  cases y with
  | ok b =>
    obtain ⟨a, rfl, hR⟩ := h
    exact follows_pure (hmore a b hR)
  | error e =>
    have hx : x = .fail e := h
    rw [hx]
    exact follows_fail e

/-- A value is changed on both sides. -/
theorem map {f : α → γ} {g : β → δ} (h : Follows R x y) (hmore : ∀ a b, R a b → S (f a) (g b)) :
    Follows S (do return f (← x)) (y.map g) := by
  cases y with
  | ok b =>
    obtain ⟨a, rfl, hR⟩ := h
    exact follows_pure (hmore a b hR)
  | error e =>
    have hx : x = .fail e := h
    rw [hx]
    exact follows_fail e

/-- A value is changed in the same way on both sides. -/
theorem map_eq {x : Run α} {y : Except Fault α} (h : Follows Eq x y) (f : α → β) :
    Follows Eq (do return f (← x)) (y.map f) :=
  h.map fun _ _ => congrArg f

/-- A run that follows exactly may fail, but it is never stopped. -/
theorem attempt {x : Run α} {y : Except Fault α} (h : Follows Eq x y) :
    x.attempt = pure y := by
  rw [h.eq]
  rfl

/-- Steps over a list follow when each of them does. -/
theorem mapM {f : σ → Run β} {g : σ → Except Fault β} {l : List σ}
    (h : ∀ s ∈ l, Follows Eq (f s) (g s)) : Follows Eq (l.mapM f) (l.mapM g) := by
  induction l with
  | nil => exact follows_pure rfl
  | cons s l ih =>
    rw [List.mapM_cons, List.mapM_cons]
    refine (h s (List.mem_cons_self ..)).bind_eq fun b _ => ?_
    refine (ih fun t ht => h t (List.mem_cons_of_mem _ ht)).bind_eq fun bs _ => ?_
    exact follows_pure rfl

/-- A fold follows when each of its steps keeps the states related. -/
theorem foldlM {Q : σ → τ → Prop} {f : σ → γ → Run σ} {g : τ → γ → Except Fault τ} {l : List γ}
    (h : ∀ c ∈ l, ∀ s t, Q s t → Follows Q (f s c) (g t c)) {s : σ} {t : τ} (hst : Q s t) :
    Follows Q (l.foldlM f s) (l.foldlM g t) := by
  induction l generalizing s t with
  | nil => exact follows_pure hst
  | cons c l ih =>
    rw [List.foldlM_cons, List.foldlM_cons]
    refine (h c (List.mem_cons_self ..) s t hst).bind fun s' t' _ hst' => ?_
    exact ih (fun d hd => h d (List.mem_cons_of_mem _ hd)) hst'

end Follows

end Machine

end InteropTables
