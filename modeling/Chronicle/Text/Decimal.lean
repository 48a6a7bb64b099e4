/-!
Reading a natural number from decimal digits: an optional plus sign, then one or more of the
ten ASCII digits.  Leading zeros are allowed; signs other than plus, separators, blanks and the
digits of other scripts are not.
-/

namespace Chronicle.Text

/-- The value of a digit sequence read from the left, most significant digit first. -/
def ofDigits (digits : List Char) : Nat :=
  digits.foldl (fun value c => 10 * value + (c.toNat - '0'.toNat)) 0

/-- The number that `text` spells, when it spells one that is not above `limit`. -/
def parseDecimal? (limit : Nat) (text : String) : Option Nat :=
  let digits := match text.toList with
    | '+' :: rest => rest
    | cs => cs
  if digits.isEmpty || !digits.all Char.isDigit then none
  else
    let value := ofDigits digits
    if value ≤ limit then some value else none

end Chronicle.Text
