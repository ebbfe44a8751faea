import InteropTables.Interop.Trampolines
import InteropTables.Proofs.Lists
import InteropTables.Proofs.Steps

/-!
# Trampolines in any order of the callbacks

The order of the callbacks and their names both follow from four data of a callback, its key.
Callbacks with one key would get one name, so where every callback gets a name, no two have the same
key and their order is settled; and where a name occurs twice, the names stand in the same order
however the callbacks did, and the first one to occur again is the same.

* `CallbackKey`, `Callback.key`: what callbacks are ordered and named by;
* `Callback.unnamed`, `Callback.withName`: a callback without its name, and with it;
* `map_key_sortCallbacks`: **the keys come in one order**;
* `nameOnto_of_ok`, `nameOnto_congr`: what naming leaves behind, and what it depends on;
* `nameCallbacks_perm`: **naming has one outcome for all orders**;
* `emitTrampolines_of_sorted`: the text for callbacks that are in order already;
* `named_of_emitTrampolines`: what an emission has done that writes something;
* `emit_any_order`: **so has the whole text.**
-/

namespace InteropTables

/-! ## 1. Keys -/

/-- What callbacks are ordered and named by. -/
structure CallbackKey where
  identity : String
  type : String
  method : String
  token : Nat

namespace CallbackKey

/-- The order of keys. -/
def compare (k l : CallbackKey) : Ordering :=
  compareLex (compareOn identity)
    (compareLex (compareOn type) (compareLex (compareOn method) (compareOn token))) k l

instance : Std.TransCmp CallbackKey.compare :=
  inferInstanceAs (Std.TransCmp (compareLex (compareOn identity)
    (compareLex (compareOn type) (compareLex (compareOn method) (compareOn token)))))

/-- Keys that stand nowhere before each other are the same. -/
theorem eq_of_compare {k l : CallbackKey} (h : k.compare l = .eq) : k = l := by
  obtain ⟨hidentity, hrest⟩ := compareLex_eq_eq.1 h
  obtain ⟨htype, hrest⟩ := compareLex_eq_eq.1 hrest
  obtain ⟨hmethod, htoken⟩ := compareLex_eq_eq.1 hrest
  cases k
  cases l
  congr
  · exact Std.LawfulEqOrd.eq_of_compare hidentity
  · exact Std.LawfulEqOrd.eq_of_compare htype
  · exact Std.LawfulEqOrd.eq_of_compare hmethod
  · exact Std.LawfulEqOrd.eq_of_compare htoken

theorem eq_of_isLE {k l : CallbackKey} (hkl : (k.compare l).isLE) (hlk : (l.compare k).isLE) :
    k = l :=
  eq_of_compare (Std.OrientedCmp.isLE_antisymm hkl hlk)

/-- The name of the trampoline of a callback with a key. -/
def trampolineName (k : CallbackKey) : String :=
  trampolinePrefixText ++ (identifierOf k.identity ++ "_" ++ identifierOf k.type ++ "_" ++
    identifierOf k.method)

end CallbackKey

namespace Callback

/-- The key of a callback. -/
def key (c : Callback) : CallbackKey where
  identity := c.method.identity
  type := c.method.declaring.name
  method := c.method.name
  token := c.method.token.value.toNat

theorem compare_eq (a b : Callback) : a.compare b = a.key.compare b.key := rfl

instance : Std.TransCmp Callback.compare where
  eq_swap {a b} := by
    rw [compare_eq, compare_eq]
    exact Std.OrientedCmp.eq_swap
  isLE_trans {a b c} hab hbc := by
    rw [compare_eq] at hab hbc ⊢
    exact Std.TransCmp.isLE_trans hab hbc

/-- A callback without the name of its trampoline. -/
def unnamed (c : Callback) : Callback :=
  { c with trampoline := none }

/-- A callback with the name of its trampoline. -/
def withName (c : Callback) : Callback :=
  { c with trampoline := some c.trampolineName }

end Callback

/-! ## 2. Order -/

theorem sortCallbacks_perm (l : List Callback) : (sortCallbacks l).Perm l :=
  List.mergeSort_perm ..

theorem sortCallbacks_ordered (l : List Callback) :
    (sortCallbacks l).Pairwise fun a b => (a.key.compare b.key).isLE :=
  pairwise_mergeSort Callback.compare l

variable {l l' : List Callback}

theorem map_key_unnamed (l : List Callback) : (l.map Callback.unnamed).map Callback.key
    = l.map Callback.key :=
  List.map_map ..

/-- **The keys come in one order**, whatever the order of the callbacks. -/
theorem map_key_sortCallbacks (h : (l.map Callback.unnamed).Perm (l'.map Callback.unnamed)) :
    (sortCallbacks l).map Callback.key = (sortCallbacks l').map Callback.key := by
  have hkeys : (l.map Callback.key).Perm (l'.map Callback.key) := by
    have hmap := h.map Callback.key
    rwa [map_key_unnamed, map_key_unnamed] at hmap
  have hperm := ((sortCallbacks_perm l).map Callback.key).trans
    (hkeys.trans ((sortCallbacks_perm l').map Callback.key).symm)
  refine @List.Perm.eq_of_pairwise _ (fun j k => (j.compare k).isLE) _ _
    (fun _ _ _ _ => CallbackKey.eq_of_isLE) ?_ ?_ hperm
  · exact List.pairwise_map.2 (sortCallbacks_ordered l)
  · exact List.pairwise_map.2 (sortCallbacks_ordered l')

/-- Callbacks of different keys come in one order. -/
theorem map_unnamed_sortCallbacks
    (h : (l.map Callback.unnamed).Perm (l'.map Callback.unnamed))
    (hkeys : ((sortCallbacks l).map Callback.key).Nodup) :
    (sortCallbacks l).map Callback.unnamed = (sortCallbacks l').map Callback.unnamed := by
  have hperm := ((sortCallbacks_perm l).map Callback.unnamed).trans
    (h.trans ((sortCallbacks_perm l').map Callback.unnamed).symm)
  have hunique : (((sortCallbacks l).map Callback.unnamed).map Callback.key).Nodup := by
    rwa [map_key_unnamed]
  refine @List.Perm.eq_of_pairwise _ (fun a b => (a.key.compare b.key).isLE) _ _
    (fun a b ha hb hab hba => ?_) ?_ ?_ hperm
  · have hb := hperm.mem_iff.2 hb
    exact List.inj_on_of_nodup_map hunique ha hb (CallbackKey.eq_of_isLE hab hba)
  · exact List.pairwise_map.2 (sortCallbacks_ordered l)
  · exact List.pairwise_map.2 (sortCallbacks_ordered l')

/-! ## 3. Names -/

/-- What naming leaves behind: all callbacks with their names, which are different from each other
and from the names given before. The induction is on the callbacks without a name. -/
theorem nameOnto_of_ok {rest : List Callback} :
    ∀ {named final : List Callback}, nameOnto named rest = (.ok (), final) →
      final = named.reverse ++ rest.map Callback.withName ∧
      (rest.map Callback.trampolineName).Nodup ∧
      ∀ c ∈ rest, ∀ other ∈ named, other.trampoline ≠ some c.trampolineName := by
  induction rest with
  | nil =>
    intro named final h
    rw [nameOnto] at h
    obtain rfl := (Prod.mk.inj h).2
    exact ⟨(List.append_nil _).symm, List.nodup_nil, fun _ hc => nomatch hc⟩
  | cons c rest ih =>
    intro named final h
    rw [nameOnto] at h
    split at h
    · cases (Prod.mk.inj h).1
    · rename_i hfresh
      obtain ⟨hfinal, hnodup, hnew⟩ := ih h
      have hfirst : ∀ other ∈ named, other.trampoline ≠ some c.trampolineName := by
        intro other hother hsame
        exact hfresh (List.any_eq_true.2 ⟨other, hother, beq_iff_eq.2 hsame⟩)
      refine ⟨?_, List.nodup_cons.2 ⟨?_, hnodup⟩, ?_⟩
      · rw [hfinal, List.reverse_cons, List.append_assoc]
        rfl
      · intro hc
        obtain ⟨d, hd, hname⟩ := List.mem_map.1 hc
        exact hnew d hd _ (List.mem_cons_self ..) (congrArg some hname.symm)
      · intro d hd other hother
        rcases List.mem_cons.1 hd with rfl | hd
        · exact hfirst other hother
        · exact hnew d hd other (List.mem_cons_of_mem _ hother)

/-- Whether naming fails, and at which name, depends on the names alone. -/
theorem nameOnto_congr {rest : List Callback} :
    ∀ {rest' named named' : List Callback},
      rest.map Callback.trampolineName = rest'.map Callback.trampolineName →
      named.map Callback.trampoline = named'.map Callback.trampoline →
      (nameOnto named rest).1 = (nameOnto named' rest').1 := by
  induction rest with
  | nil =>
    intro rest' named named' hrest _
    obtain rfl := List.map_eq_nil_iff.1 hrest.symm
    rfl
  | cons c rest ih =>
    intro rest' named named' hrest hnamed
    obtain ⟨c', rest', rfl, hname, hrest⟩ := List.map_eq_cons_iff.1 hrest.symm
    have hany : ∀ l : List Callback, (l.any fun other => other.trampoline == some c.trampolineName)
        = (l.map Callback.trampoline).any fun name => name == some c.trampolineName := by
      intro l
      rw [List.any_map]
      rfl
    rw [nameOnto, nameOnto, hname, hany, hany, hnamed]
    split
    · rfl
    · refine ih hrest.symm ?_
      rw [List.map_cons, List.map_cons, hnamed]

/-- A failure of naming names a trampoline. -/
theorem nameOnto_error {rest : List Callback} {e : Fault} :
    ∀ {named : List Callback}, (nameOnto named rest).1 = .error e →
      ∃ name, e = .duplicateTrampoline name := by
  induction rest with
  | nil =>
    intro named h
    cases h
  | cons c rest ih =>
    intro named h
    rw [nameOnto] at h
    split at h
    · exact ⟨_, (Except.error.inj h).symm⟩
    · exact ih h

theorem nameCallbacks_of_ok {final : List Callback} (h : nameCallbacks l = (.ok (), final)) :
    final = (sortCallbacks l).map Callback.withName ∧
    ((sortCallbacks l).map Callback.key).Nodup := by
  obtain ⟨hfinal, hnodup, -⟩ := nameOnto_of_ok h
  refine ⟨hfinal, List.Nodup.of_map CallbackKey.trampolineName ?_⟩
  rw [List.map_map]
  exact hnodup

/-- **Naming has one outcome for all orders**: the same callbacks in the same order with the same
names, or a failure at the same name. -/
theorem nameCallbacks_perm (h : (l.map Callback.unnamed).Perm (l'.map Callback.unnamed)) :
    (∃ final, nameCallbacks l = (.ok (), final) ∧ nameCallbacks l' = (.ok (), final)) ∨
    ∃ name, (nameCallbacks l).1 = .error (.duplicateTrampoline name) ∧
      (nameCallbacks l').1 = .error (.duplicateTrampoline name) := by
  have hnames : (sortCallbacks l).map Callback.trampolineName
      = (sortCallbacks l').map Callback.trampolineName := by
    have hkeys := congrArg (List.map CallbackKey.trampolineName) (map_key_sortCallbacks h)
    rwa [List.map_map, List.map_map] at hkeys
  have hsame : (nameCallbacks l).1 = (nameCallbacks l').1 := nameOnto_congr hnames rfl
  cases hfirst : (nameCallbacks l).1 with
  | error e =>
    obtain ⟨name, rfl⟩ := nameOnto_error hfirst
    exact .inr ⟨name, rfl, hsame ▸ hfirst⟩
  | ok =>
    have hl : nameCallbacks l = (.ok (), (nameCallbacks l).2) := Prod.ext hfirst rfl
    have hl' : nameCallbacks l' = (.ok (), (nameCallbacks l').2) :=
      Prod.ext (hsame ▸ hfirst) rfl
    obtain ⟨hfinal, hkeys⟩ := nameCallbacks_of_ok hl
    obtain ⟨hfinal', -⟩ := nameCallbacks_of_ok hl'
    have hunnamed := congrArg (List.map Callback.withName) (map_unnamed_sortCallbacks h hkeys)
    rw [List.map_map, List.map_map] at hunnamed
    refine .inl ⟨(nameCallbacks l).2, hl, ?_⟩
    rw [hl', hfinal', hfinal]
    exact congrArg _ hunnamed.symm

/-! ## 4. The text -/

theorem checkCallbacks_eq_ok_iff : checkCallbacks l = .ok () ↔ ∀ c ∈ l, c.check = .ok () := by
  induction l with
  | nil => exact ⟨fun _ _ hc => (nomatch hc), fun _ => rfl⟩
  | cons c l ih =>
    have hcons : checkCallbacks (c :: l) = (c.check >>= fun _ => checkCallbacks l) := rfl
    rw [List.forall_mem_cons, ← ih, hcons]
    cases c.check with
    | ok => exact ⟨fun h => ⟨rfl, h⟩, fun h => h.2⟩
    | error e => simp

theorem checkCallbacks_perm (h : (l.map Callback.unnamed).Perm (l'.map Callback.unnamed)) :
    checkCallbacks l = .ok () ↔ checkCallbacks l' = .ok () := by
  have hunnamed : ∀ l : List Callback,
      checkCallbacks l = .ok () ↔ ∀ c ∈ l.map Callback.unnamed, c.check = .ok () := by
    intro l
    rw [checkCallbacks_eq_ok_iff, List.forall_mem_map]
    rfl
  rw [hunnamed, hunnamed]
  exact forall_congr' fun c => by rw [h.mem_iff]

theorem emitTrampolines_of_check (h : checkCallbacks l = .ok ()) :
    emitTrampolines l = ((nameCallbacks l).1.map fun _ => trampolinesText (nameCallbacks l).2,
      (nameCallbacks l).2) := by
  rw [emitTrampolines, h]
  dsimp only
  split <;> rename_i hnamed <;> rw [hnamed] <;> rfl

/-- Callbacks that are in order already are emitted as they are. -/
theorem emitTrampolines_of_sorted {final : List Callback} (hcheck : checkCallbacks l = .ok ())
    (hsorted : l.Pairwise fun a b => (a.compare b).isLE)
    (hnamed : nameOnto [] l = (.ok (), final)) :
    emitTrampolines l = (.ok (trampolinesText final), final) := by
  have hsame : sortCallbacks l = l := List.mergeSort_of_pairwise hsorted
  rw [emitTrampolines_of_check hcheck, nameCallbacks, hsame, hnamed]
  rfl

/-- An emission that writes something has checked and named its callbacks, and writes the text of
those that it leaves behind. -/
theorem named_of_emitTrampolines {text : String} {final : List Callback}
    (h : emitTrampolines l = (.ok text, final)) :
    checkCallbacks l = .ok () ∧ nameCallbacks l = (.ok (), final) ∧
      text = trampolinesText final := by
  cases hcheck : checkCallbacks l with
  | error e =>
    rw [emitTrampolines, hcheck] at h
    cases (Prod.mk.inj h).1
  | ok =>
    rw [emitTrampolines_of_check hcheck] at h
    obtain ⟨htext, rfl⟩ := Prod.mk.inj h
    cases hnamed : (nameCallbacks l).1 with
    | ok =>
      rw [hnamed] at htext
      exact ⟨rfl, Prod.ext hnamed rfl, (Except.ok.inj htext).symm⟩
    | error e =>
      rw [hnamed] at htext
      cases htext

/-- The callbacks that an emission leaves behind are those it was given, in another order and with
names. -/
theorem perm_of_emitTrampolines {text : String} {final : List Callback}
    (h : emitTrampolines l = (.ok text, final)) :
    checkCallbacks l = .ok () ∧ (l.map Callback.unnamed).Perm (final.map Callback.unnamed) := by
  obtain ⟨hcheck, hnamed, -⟩ := named_of_emitTrampolines h
  obtain ⟨rfl, -⟩ := nameCallbacks_of_ok hnamed
  refine ⟨hcheck, ?_⟩
  rw [List.map_map]
  exact ((sortCallbacks_perm l).map Callback.unnamed).symm

/-- **The text does not depend on the order of the callbacks, nor on names that they have already**:
either all orders pass the check or none; and if they pass, they all give the same text and leave
the same callbacks in the same order with the same names, or all fail at the same name. So an
emission from the callbacks that an emission has left gives its text again and changes nothing. -/
theorem emit_any_order (h : (l.map Callback.unnamed).Perm (l'.map Callback.unnamed)) :
    (checkCallbacks l = .ok () ↔ checkCallbacks l' = .ok ()) ∧
    (checkCallbacks l = .ok () →
      (∃ text final, emitTrampolines l = (.ok text, final) ∧
        emitTrampolines l' = (.ok text, final)) ∨
      ∃ name, (emitTrampolines l).1 = .error (.duplicateTrampoline name) ∧
        (emitTrampolines l').1 = .error (.duplicateTrampoline name)) ∧
    ∀ text final, emitTrampolines l = (.ok text, final) →
      emitTrampolines final = (.ok text, final) := by
  have hemit : ∀ {l l' : List Callback},
      (l.map Callback.unnamed).Perm (l'.map Callback.unnamed) → checkCallbacks l = .ok () →
      (∃ text final, emitTrampolines l = (.ok text, final) ∧
        emitTrampolines l' = (.ok text, final)) ∨
      ∃ name, (emitTrampolines l).1 = .error (.duplicateTrampoline name) ∧
        (emitTrampolines l').1 = .error (.duplicateTrampoline name) := by
    intro l l' h hcheck
    have hcheck' := (checkCallbacks_perm h).1 hcheck
    rw [emitTrampolines_of_check hcheck, emitTrampolines_of_check hcheck']
    rcases nameCallbacks_perm h with ⟨final, hl, hl'⟩ | ⟨name, hl, hl'⟩
    · rw [hl, hl']
      exact .inl ⟨_, final, rfl, rfl⟩
    · rw [hl, hl']
      exact .inr ⟨name, rfl, rfl⟩
  refine ⟨checkCallbacks_perm h, hemit h, fun text final hl => ?_⟩
  obtain ⟨hcheck, hperm⟩ := perm_of_emitTrampolines hl
  rcases hemit hperm hcheck with ⟨text', final', hfirst, hagain⟩ | ⟨name, hfirst, -⟩
  · rw [hl] at hfirst
    obtain ⟨htext, rfl⟩ := Prod.mk.inj hfirst
    rw [hagain, ← htext]
  · rw [hl] at hfirst
    cases hfirst

/-- A callback without parameters that returns nothing. -/
def Callback.plain (type name : String) (number : Nat) : Callback where
  method := {
    declaring := .topLevel "Clock" type
    name
    result := .void
    parameters := []
    identity := "Clock.App"
    token := .ofParts 6 number }
  marker := .unmanagedCallersOnly

/-- Three callbacks in their order, two of them in one type. -/
def clockCallbacks : List Callback :=
  [.plain "Alarm" "Arm" 3, .plain "Alarm" "Ring" 1, .plain "Timer" "Tick" 2]

theorem emit_any_order_clock :
    (clockCallbacks.map Callback.unnamed).Perm
      ((clockCallbacks.reverse.map Callback.withName).map Callback.unnamed) ∧
    ∃ text, emitTrampolines clockCallbacks = (.ok text, clockCallbacks.map Callback.withName) ∧
      emitTrampolines (clockCallbacks.reverse.map Callback.withName)
        = (.ok text, clockCallbacks.map Callback.withName) ∧
      emitTrampolines (clockCallbacks.map Callback.withName)
        = (.ok text, clockCallbacks.map Callback.withName) := by
  have hperm : (clockCallbacks.map Callback.unnamed).Perm
      ((clockCallbacks.reverse.map Callback.withName).map Callback.unnamed) := by decide
  have hcheck : checkCallbacks clockCallbacks = .ok () := by decide
  have hclock : emitTrampolines clockCallbacks
      = (.ok (trampolinesText (clockCallbacks.map Callback.withName)),
        clockCallbacks.map Callback.withName) :=
    emitTrampolines_of_sorted hcheck (by decide) (by decide)
  obtain ⟨-, hsame, hagain⟩ := emit_any_order hperm
  rcases hsame hcheck with ⟨text, final, hfirst, hother⟩ | ⟨name, hfirst, -⟩
  · obtain rfl := (Prod.mk.inj (hclock.symm.trans hfirst)).2
    exact ⟨hperm, text, hfirst, hother, hagain text _ hfirst⟩
  · rw [hclock] at hfirst
    cases hfirst

end InteropTables
