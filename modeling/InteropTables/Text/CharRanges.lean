/-!
# Ranges of characters

A property of characters is given by the runs of characters that have it.

* `CharRanges`: runs of characters;
* `CharRanges.has`: whether a character lies in one of them.
-/

namespace InteropTables

/-- Runs of characters, each by the codes of its first and its last character. -/
abbrev CharRanges := List (Nat × Nat)

/-- Whether a character lies in one of the runs. -/
def CharRanges.has (ranges : CharRanges) (c : Char) : Bool :=
  ranges.any fun (first, last) => first ≤ c.toNat && c.toNat ≤ last

end InteropTables
