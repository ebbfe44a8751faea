/-!
# Identifiers from names

Names of modules, types and methods hold characters that no C identifier may hold. Each of them is
replaced by an underscore, so a name keeps its length but not its identity.

* `identifierOf`: the name with every other character replaced;
* `identifierOf_chars`: only letters, digits and underscores of the basic alphabet remain.
-/

namespace InteropTables

/-- Whether a character is a letter or a digit of the basic alphabet. -/
def isWordChar (c : Char) : Bool :=
  ('a' ≤ c && c ≤ 'z') || ('A' ≤ c && c ≤ 'Z') || ('0' ≤ c && c ≤ '9')

/-- A character of a name as it stands in an identifier. -/
def identifierChar (c : Char) : Char :=
  if isWordChar c then c else '_'

/-- A name in the form of an identifier. -/
def identifierOf (name : String) : String :=
  String.ofList (name.toList.map identifierChar)

/-- **An identifier is made of letters, digits and underscores.** -/
theorem identifierOf_chars {name : String} {c : Char} (h : c ∈ (identifierOf name).toList) :
    isWordChar c = true ∨ c = '_' := by
  simp only [identifierOf, String.toList_ofList, List.mem_map] at h
  obtain ⟨d, _, rfl⟩ := h
  unfold identifierChar
  split
  · exact .inl (by assumption)
  · exact .inr rfl

end InteropTables
