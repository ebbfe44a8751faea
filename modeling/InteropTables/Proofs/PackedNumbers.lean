import InteropTables.Proofs.Exact

/-!
# Which bytes are a packed number

The lead byte of a packed number tells how many bytes follow it, and this alone decides whether
there is a number: there is one if so many bytes are there. Whatever comes out, reading stops at a
place inside the bytes.

* `Cursor.within`: the cursor at a place in some bytes;
* `followers`: how many bytes follow a lead byte, by its top bits;
* `compressed_of_followers`, `compressed_of_refused`: what reading does behind each lead byte;
* `numbers_read_exactly`: **packed numbers are read back from their shortest forms, and a number is
  read exactly where a lead byte has its bytes behind it.**
-/

namespace InteropTables

/-- The cursor at a place in some bytes. -/
def Cursor.within (data : List UInt8) (position depth : Nat) : Cursor :=
  ⟨data.drop position, position, depth⟩

namespace Reader

/-! ## 1. Lead bytes -/

/-- How many bytes follow a lead byte: none behind the top bit `0`, one behind `10`, three behind
`110`. No number starts with the top bits `111`. -/
def followers (lead : UInt8) : Option Nat :=
  if lead &&& 0x80 = 0 then some 0
  else if lead &&& 0xC0 = 0x80 then some 1
  else if lead &&& 0xE0 = 0xC0 then some 3
  else none

/-- The top bits of a byte tell in which range it lies. -/
theorem followers_eq (lead : UInt8) :
    followers lead = if lead < 0x80 then some 0 else if lead < 0xC0 then some 1
      else if lead < 0xE0 then some 3 else none := by
  have hall : ∀ b : BitVec 8, followers ⟨b⟩ = if (⟨b⟩ : UInt8) < 0x80 then some 0
      else if (⟨b⟩ : UInt8) < 0xC0 then some 1
      else if (⟨b⟩ : UInt8) < 0xE0 then some 3 else none := by decide +kernel
  exact hall lead.toBitVec

/-- The lead bytes that start no number. -/
theorem followers_eq_none_iff (lead : UInt8) : followers lead = none ↔ lead &&& 0xE0 = 0xE0 := by
  have hall : ∀ b : BitVec 8, followers ⟨b⟩ = none ↔ (⟨b⟩ : UInt8) &&& 0xE0 = 0xE0 := by
    decide +kernel
  exact hall lead.toBitVec

/-! ## 2. Behind a lead byte -/

variable {lead : UInt8} {k : Nat}

/-- A lead byte without a form is used, and refused. -/
theorem compressed_of_refused (h : followers lead = none) (rest : List UInt8)
    (position depth : Nat) :
    compressed ⟨lead :: rest, position, depth⟩
      = (.error (.malformed (.compressedLead lead)), ⟨rest, position + 1, depth⟩) := by
  rw [followers_eq] at h
  have hnext : next ⟨lead :: rest, position, depth⟩ = (.ok lead, ⟨rest, position + 1, depth⟩) := rfl
  rw [compressed, bind_of_ok hnext]
  split_ifs at h ⊢
  rfl

/-- Behind any other lead byte there is a number if its bytes are there; else reading fails at the
end of the bytes. -/
theorem compressed_of_followers (h : followers lead = some k) (rest : List UInt8)
    (position depth : Nat) :
    (k ≤ rest.length → ∃ n, compressed ⟨lead :: rest, position, depth⟩
      = (.ok n, ⟨rest.drop k, position + 1 + k, depth⟩)) ∧
    (rest.length < k → compressed ⟨lead :: rest, position, depth⟩
      = (.error .outOfBounds, ⟨[], position + 1 + rest.length, depth⟩)) := by
  rw [followers_eq] at h
  have hnext : next ⟨lead :: rest, position, depth⟩ = (.ok lead, ⟨rest, position + 1, depth⟩) := rfl
  rw [compressed, bind_of_ok hnext]
  split_ifs at h ⊢
  · obtain rfl := Option.some.inj h
    exact ⟨fun _ => ⟨_, rfl⟩, fun hshort => absurd hshort (Nat.not_lt_zero _)⟩
  · obtain rfl := Option.some.inj h
    match rest with
    | [] => exact ⟨fun hlong => absurd hlong (by decide), fun _ => rfl⟩
    | b :: rest => exact ⟨fun _ => ⟨_, rfl⟩, fun hshort => absurd hshort (by simp)⟩
  · obtain rfl := Option.some.inj h
    match rest with
    | [] => exact ⟨fun hlong => absurd hlong (by decide), fun _ => rfl⟩
    | [b₁] => exact ⟨fun hlong => absurd hlong (by simp), fun _ => rfl⟩
    | [b₁, b₂] => exact ⟨fun hlong => absurd hlong (by simp), fun _ => rfl⟩
    | b₁ :: b₂ :: b₃ :: rest => exact ⟨fun _ => ⟨_, rfl⟩, fun hshort => absurd hshort (by simp)⟩

theorem length_compress (n : Nat) :
    (compress n).length = if n < 0x80 then 1 else if n < 0x4000 then 2 else 4 := by
  unfold compress
  split_ifs <;> rfl

/-! ## 3. Numbers in some bytes -/

/-- How reading a number at a place ends, and where it stops. -/
inductive NumberAt (data : List UInt8) (position : Nat) : Except Fault Nat → Nat → Prop where
  /-- No byte stands there. -/
  | nothing (front : data[position]? = none) :
      NumberAt data position (.error .outOfBounds) position
  /-- The byte that stands there starts no number. -/
  | refused {lead : UInt8} (front : data[position]? = some lead) (form : followers lead = none) :
      NumberAt data position (.error (.malformed (.compressedLead lead))) (position + 1)
  /-- The bytes that the lead byte asks for do not all stand behind it. -/
  | cut {lead : UInt8} {k : Nat} (front : data[position]? = some lead)
      (form : followers lead = some k) (short : data.length < position + 1 + k) :
      NumberAt data position (.error .outOfBounds) data.length
  /-- They do. -/
  | number {lead : UInt8} {k n : Nat} (front : data[position]? = some lead)
      (form : followers lead = some k) (fits : position + 1 + k ≤ data.length)
      (code : NumberCode n ((data.take (position + 1 + k)).drop position)) :
      NumberAt data position (.ok n) (position + 1 + k)

/-- What stands between two places. -/
theorem eq_of_drop_eq_append {data used : List UInt8} {position stop : Nat}
    (hstop : stop ≤ data.length) (h : data.drop position = used ++ data.drop stop) :
    used = (data.take stop).drop position := by
  have hused : used.length = stop - position := by
    have hlength := congrArg List.length h
    rw [List.length_append, List.length_drop, List.length_drop] at hlength
    omega
  rw [List.drop_take, h, ← hused, List.take_left]

/-- **Reading a number at a place ends in one of these ways.** -/
theorem exists_numberAt (data : List UInt8) (position depth : Nat) : ∃ outcome stop,
    compressed (.within data position depth) = (outcome, .within data stop depth) ∧
    NumberAt data position outcome stop := by
  by_cases hinside : position < data.length
  · have hfront : data[position]? = some data[position] := List.getElem?_eq_getElem hinside
    have hstart : Cursor.within data position depth
        = ⟨data[position] :: data.drop (position + 1), position, depth⟩ := by
      rw [Cursor.within, List.drop_eq_getElem_cons hinside]
    have hlength : (data.drop (position + 1)).length = data.length - (position + 1) :=
      List.length_drop
    cases hform : followers data[position] with
    | none =>
      refine ⟨_, _, ?_, .refused hfront hform⟩
      rw [hstart, compressed_of_refused hform, Cursor.within]
    | some k =>
      obtain ⟨hlong, hshort⟩ :=
        compressed_of_followers hform (data.drop (position + 1)) position depth
      by_cases hfits : position + 1 + k ≤ data.length
      · obtain ⟨n, hread⟩ := hlong (by omega)
        rw [List.drop_drop, ← hstart] at hread
        refine ⟨_, _, hread, .number hfront hform hfits ?_⟩
        obtain ⟨used, hused, -, hcode⟩ := exact_compressed _ _ _ hread
        rwa [eq_of_drop_eq_append hfits hused] at hcode
      · have hends := hshort (by omega)
        refine ⟨_, _, ?_, .cut hfront hform (by omega)⟩
        rw [hstart, hends, Cursor.within, List.drop_length, hlength]
        congr 3
        omega
  · have hnothing : data.drop position = [] := List.drop_eq_nil_of_le (Nat.not_lt.1 hinside)
    refine ⟨_, _, ?_, .nothing (List.getElem?_eq_none (Nat.not_lt.1 hinside))⟩
    rw [Cursor.within, hnothing]
    rfl

namespace NumberAt

variable {data : List UInt8} {position stop : Nat} {outcome : Except Fault Nat}

theorem le_stop (h : NumberAt data position outcome stop) : position ≤ stop := by
  cases h with
  | nothing => exact Nat.le_refl _
  | refused => exact Nat.le_succ _
  | cut front => exact Nat.le_of_lt (List.getElem?_eq_some_iff.1 front).1
  | number => omega

theorem stop_le (h : NumberAt data position outcome stop) (hposition : position ≤ data.length) :
    stop ≤ data.length := by
  cases h with
  | nothing => exact hposition
  | refused front => exact (List.getElem?_eq_some_iff.1 front).1
  | cut => exact Nat.le_refl _
  | number _ _ fits => exact fits

/-- The lead byte and the bytes behind it are all that a number needs. -/
theorem exists_ok_iff (h : NumberAt data position outcome stop) :
    (∃ n, outcome = .ok n) ↔ ∃ lead k, data[position]? = some lead ∧
      followers lead = some k ∧ position + 1 + k ≤ data.length := by
  cases h with
  | nothing front => simp [front]
  | refused front form => simp [front, form]
  | cut front form short => simp [front, form, Nat.not_le.2 short]
  | number front form fits code => simp [front, form, fits]

theorem eq_malformed {lead : UInt8} (h : NumberAt data position outcome stop)
    (hfront : data[position]? = some lead) (hform : followers lead = none) :
    outcome = .error (.malformed (.compressedLead lead)) := by
  cases h with
  | nothing front => cases hfront.symm.trans front
  | refused front form =>
    obtain rfl := Option.some.inj (hfront.symm.trans front)
    rfl
  | cut front form short =>
    obtain rfl := Option.some.inj (hfront.symm.trans front)
    cases hform.symm.trans form
  | number front form fits code =>
    obtain rfl := Option.some.inj (hfront.symm.trans front)
    cases hform.symm.trans form

theorem eq_outOfBounds (h : NumberAt data position outcome stop)
    (hmissing : data[position]? = none ∨ ∃ lead k, data[position]? = some lead ∧
      followers lead = some k ∧ data.length < position + 1 + k) :
    outcome = .error .outOfBounds := by
  cases h with
  | nothing => rfl
  | refused front form => simp [front, form] at hmissing
  | cut => rfl
  | number front form fits code => simp [front, form, Nat.not_lt.2 fits] at hmissing

end NumberAt

/-- **Packed numbers are read exactly.**

A number of 29 bits is read back from its shortest form, which takes one, two or four bytes, and
whatever follows is left. At any place in any bytes a number is read exactly if a lead byte stands
there and as many bytes behind it as its top bits ask for; it has 29 bits, and what was used is one
of its packed forms. A lead byte of three ones is malformed, and where bytes are missing reading
runs out of bounds. Reading goes forward and stops inside the bytes. -/
theorem numbers_read_exactly :
    (∀ n < compressedSpan, Reads compressed n (compress n) ∧
      (compress n).length = if n < 0x80 then 1 else if n < 0x4000 then 2 else 4) ∧
    ∀ (data : List UInt8) (position depth : Nat), ∃ outcome stop,
      compressed (.within data position depth) = (outcome, .within data stop depth) ∧
      position ≤ stop ∧ (position ≤ data.length → stop ≤ data.length) ∧
      ((∃ n, outcome = .ok n) ↔ ∃ lead k, data[position]? = some lead ∧
        followers lead = some k ∧ position + 1 + k ≤ data.length) ∧
      (∀ n, outcome = .ok n →
        n < compressedSpan ∧ NumberCode n ((data.take stop).drop position)) ∧
      (∀ lead, data[position]? = some lead → lead &&& 0xE0 = 0xE0 →
        outcome = .error (.malformed (.compressedLead lead))) ∧
      ((data[position]? = none ∨ ∃ lead k, data[position]? = some lead ∧
        followers lead = some k ∧ data.length < position + 1 + k) →
        outcome = .error .outOfBounds) := by
  refine ⟨fun n hn => ⟨reads_compressed (numberCode_compress hn), length_compress n⟩,
    fun data position depth => ?_⟩
  obtain ⟨outcome, stop, hread, hend⟩ := exists_numberAt data position depth
  refine ⟨outcome, stop, hread, hend.le_stop, hend.stop_le, hend.exists_ok_iff, ?_, ?_,
    hend.eq_outOfBounds⟩
  · intro n hn
    subst hn
    refine ⟨compressed_lt hread, ?_⟩
    cases hend with
    | number _ _ _ code => exact code
  · intro lead hfront hlead
    exact hend.eq_malformed hfront ((followers_eq_none_iff lead).2 hlead)

/-- The largest number is read from its four bytes, in front of another one; cut by a byte it is not
read, and reading stops at the end. -/
theorem numbers_read_exactly_largest :
    0x1FFFFFFF < compressedSpan ∧
    compressed ⟨compress 0x1FFFFFFF ++ [0x03], 0, 0⟩ = (.ok 0x1FFFFFFF, ⟨[0x03], 4, 0⟩) ∧
    ∃ stop ≤ 3, compressed (.within [0xDF, 0xFF, 0xFF] 0 0)
      = (.error .outOfBounds, .within [0xDF, 0xFF, 0xFF] stop 0) := by
  have hlargest : 0x1FFFFFFF < compressedSpan := by decide
  obtain ⟨hback, hplaces⟩ := numbers_read_exactly
  obtain ⟨outcome, stop, hread, -, hstop, -, -, -, hmissing⟩ := hplaces [0xDF, 0xFF, 0xFF] 0 0
  obtain rfl := hmissing (.inr ⟨0xDF, 3, rfl, by decide, by decide⟩)
  exact ⟨hlargest, (hback _ hlargest).1 [0x03] 0 0, stop, hstop (by decide), hread⟩

end Reader

end InteropTables
