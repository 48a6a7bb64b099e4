import Chronicle.Json.Basic
/-!
Which numbers a reader can keep.

A number is kept in double precision, and there it has to be finite.  It is not rounded as a whole
but part by part: of its digits as many are taken as 64 bits hold, these digits and the power of
ten behind them are each rounded to 53 binary digits, and the product of the two is what counts.
So a number right below the end of the range can be out of it.
-/

namespace Chronicle.Json

/-! ### Leading digits -/

/-- The least number that 64 bits do not hold. -/
def wordEnd : Nat := 0x10000000000000000

/-- As many leading digits of a number as 64 bits hold, and how many digits follow them. -/
def leadingDigits (n : Nat) : Nat × Nat :=
  if n < wordEnd then (n, 0)
  else
    let (digits, dropped) := leadingDigits (n / 10)
    (digits, dropped + 1)
termination_by n
decreasing_by unfold wordEnd at *; omega

/-- A number that 64 bits hold loses no digits. -/
theorem leadingDigits_of_lt {n : Nat} (h : n < wordEnd) : leadingDigits n = (n, 0) := by
  rw [leadingDigits, if_pos h]

/-- The leading digits are those that remain when the digits behind them are cut off. -/
theorem fst_leadingDigits (n : Nat) :
    (leadingDigits n).1 = n / Nat.pow 10 (leadingDigits n).2 := by
  fun_induction leadingDigits n with
  | case1 n h => exact (Nat.div_one n).symm
  | case2 n h digits dropped eq ih =>
    rw [eq] at ih
    change digits = n / (Nat.pow 10 dropped * 10)
    rw [Nat.mul_comm, ← Nat.div_div_eq_div_mul]
    exact ih

/-! ### Double precision -/

/-- What the last of the first 53 binary digits of a number counts. -/
def lastPlace (n : Nat) : Nat := Nat.pow 2 (n.log2 - 52)

/-- The nearest number with no more than 53 binary digits in front of its zeros; if two are as
near, the one whose last of these digits is even. -/
def rounded (n : Nat) : Nat :=
  let place := lastPlace n
  let count := n / place
  let rest := 2 * (n % place)
  if place < rest || rest == place && count % 2 == 1 then (count + 1) * place else count * place

theorem lastPlace_of_lt {n : Nat} (h : n < 0x20000000000000) : lastPlace n = 1 := by
  have hlog : n.log2 - 52 = 0 := by
    by_cases hn : n = 0
    · rw [hn]; decide
    · have : n.log2 < 53 := (Nat.log2_lt hn).2 h
      omega
  rw [lastPlace, hlog]

/-- A number of 53 binary digits is not changed. -/
theorem rounded_of_lt {n : Nat} (h : n < 0x20000000000000) : rounded n = n := by
  simp [rounded, lastPlace_of_lt h, Nat.mod_one]

/-- The least number that double precision takes for infinite. -/
def rangeEnd : Nat := Nat.pow 2 1024 - Nat.pow 2 970

/-- The greatest power of ten that is finite in double precision. -/
def maxPower : Nat := 308

/-- Is `mantissa * 10 ^ exponent` finite when it is kept in double precision? -/
def isFinite (mantissa : Nat) (exponent : Int) : Bool :=
  let (digits, dropped) := leadingDigits mantissa
  match exponent + dropped with
  | .negSucc _ => true
  | .ofNat power =>
    digits == 0 ||
      power ≤ maxPower && rounded digits * rounded (Nat.pow 10 power) < rangeEnd

/-- Is the number within the range of double precision? -/
def Number.inRange : Number → Bool
  | integer _ magnitude => isFinite magnitude 0
  | decimal _ mantissa exponent => isFinite mantissa exponent

/-- Zero is within the range, whatever its power of ten. -/
theorem isFinite_zero (exponent : Int) : isFinite 0 exponent = true := by
  rw [isFinite, leadingDigits_of_lt (by decide)]
  dsimp only
  split <;> rfl

end Chronicle.Json
