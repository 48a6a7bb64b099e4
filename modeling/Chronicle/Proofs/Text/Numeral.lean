import Chronicle.Text.Decimal
import Mathlib.Data.Nat.Digits.Defs
/-!
Which texts are numbers in decimal.

A numeral is a plus sign or nothing, and then digits, of which the last counts ones, the one before
it tens, and so on (`Denotes`).  Reading a number accepts the numerals up to a limit and nothing
else, and reads them as the numbers that they denote (`parseDecimal?_eq_some_iff`).
-/

namespace Chronicle.Text

variable {text : String} {sign digits : List Char} {limit n : Nat}

/-- The number that digits denote, the most significant one first. -/
def valueOf (digits : List Char) : Nat :=
  Nat.ofDigits 10 (digits.reverse.map fun c => c.toNat - '0'.toNat)

/-- The text is a numeral, and this is the number that it denotes. -/
def Denotes (text : String) (n : Nat) : Prop :=
  ∃ sign digits : List Char, text.toList = sign ++ digits ∧ (sign = [] ∨ sign = ['+']) ∧
    digits ≠ [] ∧ (∀ c ∈ digits, c.isDigit = true) ∧ valueOf digits = n

theorem ofDigits_eq (digits : List Char) : ofDigits digits = valueOf digits := by
  rw [valueOf, Nat.ofDigits_eq_foldr, List.foldr_map, List.foldr_reverse, ofDigits]
  simp [Nat.add_comm]

/-- A plus sign is taken off, whatever follows, and nothing else is. -/
theorem parseDecimal?_of_toList (h : text.toList = sign ++ digits)
    (hsign : sign = [] ∧ digits.head? ≠ some '+' ∨ sign = ['+']) :
    parseDecimal? limit text =
      if digits.isEmpty || !digits.all Char.isDigit then none
      else if valueOf digits ≤ limit then some (valueOf digits) else none := by
  unfold parseDecimal?
  rw [h, ← ofDigits_eq]
  rcases hsign with ⟨rfl, hplus⟩ | rfl
  · rw [List.nil_append]
    split
    · simp at hplus
    · rfl
  · rfl

/-- **Reading a number accepts the numerals up to the limit**, as what they denote. -/
theorem parseDecimal?_eq_some_iff :
    parseDecimal? limit text = some n ↔ Denotes text n ∧ n ≤ limit := by
  constructor
  · intro h
    obtain ⟨sign, digits, htext, hsign⟩ : ∃ sign digits, text.toList = sign ++ digits ∧
        (sign = [] ∧ digits.head? ≠ some '+' ∨ sign = ['+']) := by
      by_cases hplus : text.toList.head? = some '+'
      · obtain ⟨digits, hdigits⟩ := List.head?_eq_some_iff.mp hplus
        exact ⟨['+'], digits, hdigits, .inr rfl⟩
      · exact ⟨[], text.toList, rfl, .inl ⟨rfl, hplus⟩⟩
    rw [parseDecimal?_of_toList htext hsign] at h
    split at h
    · cases h
    · next hdigits =>
        rw [Bool.or_eq_true, not_or, List.isEmpty_iff, Bool.not_eq_true', Bool.not_eq_false,
          List.all_eq_true] at hdigits
        split at h
        · next hlimit =>
            obtain rfl := Option.some.inj h
            exact ⟨⟨sign, digits, htext, hsign.imp_left And.left, hdigits.1, hdigits.2, rfl⟩,
              hlimit⟩
        · cases h
  · rintro ⟨⟨sign, digits, htext, hsign, hne, hdigits, rfl⟩, hlimit⟩
    have hplus : digits.head? ≠ some '+' := by
      intro hplus
      have hdigit := hdigits '+' (List.mem_of_mem_head? hplus)
      simp [Char.isDigit] at hdigit
    have hempty : digits.isEmpty = false := List.isEmpty_eq_false_iff.mpr hne
    have hall : digits.all Char.isDigit = true := List.all_eq_true.mpr hdigits
    rw [parseDecimal?_of_toList htext (hsign.imp_left (⟨·, hplus⟩)), hempty, hall, if_neg (by simp),
      if_pos hlimit]

end Chronicle.Text
