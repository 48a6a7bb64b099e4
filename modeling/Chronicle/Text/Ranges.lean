/-!
Sets of characters as ranges of code points.

The ranges are in order and do not touch, so a character is looked for among those that begin at
or below it, and a character in front of all ranges is told from them at once.
-/

namespace Chronicle.Text

/-- A set of characters: the first and the last code point of each of its ranges. -/
abbrev Ranges := List (Nat × Nat)

/-- Is the character in one of the ranges? -/
def Ranges.contains (ranges : Ranges) (c : Char) : Bool :=
  (ranges.takeWhile fun range => range.1 ≤ c.toNat).any fun range => c.toNat ≤ range.2

/-- A character in front of the first range is in none. -/
theorem Ranges.contains_of_lt {first last : Nat} {rest : Ranges} {c : Char}
    (h : c.toNat < first) : Ranges.contains ((first, last) :: rest) c = false := by
  have h : ¬ first ≤ c.toNat := by omega
  simp [Ranges.contains, h]

end Chronicle.Text
