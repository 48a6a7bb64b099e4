import Chronicle.Json.Basic
/-!
Reading JSON.

The reader is strict: no comments, no trailing commas, no leading zeros, no control characters
inside texts.  Only four characters count as blanks.  Every reader takes a piece off the front of
the characters and answers with the rest.  Values are read with a bound on how deep the readers
of values, items and members may call each other; no more than two such calls fall to one
character, so twice the number of characters is bound enough.
-/

namespace Chronicle.Json

/-- Drop the blanks in front. -/
def skipBlanks (cs : List Char) : List Char :=
  cs.dropWhile fun c => c == ' ' || c == '\n' || c == '\t' || c == '\r'

/-! ### Texts -/

/-- A part of a text: a character, or half of one given by its number. -/
inductive Piece
  | char (c : Char)
  /-- The first half of a surrogate pair, counted from the first of these. -/
  | high (n : Nat)
  /-- The second half of a surrogate pair, counted from the first of these. -/
  | low (n : Nat)
deriving DecidableEq, Repr

namespace Piece

/-- The part with the given number of four hexadecimal digits. -/
def ofUnit (n : Nat) : Piece :=
  if 0xD800 ≤ n && n < 0xDC00 then high (n - 0xD800)
  else if 0xDC00 ≤ n && n < 0xE000 then low (n - 0xDC00)
  else char (Char.ofNat n)

/-- Put halves together; `none` if one lacks the other. -/
def join : List Piece → Option (List Char)
  | [] => some []
  | char c :: rest => (join rest).map (c :: ·)
  | high h :: low l :: rest => (join rest).map (Char.ofNat (0x10000 + 0x400 * h + l) :: ·)
  | _ => none

end Piece

def hexValue? (c : Char) : Option Nat :=
  if '0' ≤ c && c ≤ '9' then some (c.toNat - '0'.toNat)
  else if 'a' ≤ c && c ≤ 'f' then some (c.toNat - 'a'.toNat + 10)
  else if 'A' ≤ c && c ≤ 'F' then some (c.toNat - 'A'.toNat + 10)
  else none

/-- The number of four hexadecimal digits. -/
def unit? (a b c d : Char) : Option Nat := do
  return 0x1000 * (← hexValue? a) + 0x100 * (← hexValue? b) + 0x10 * (← hexValue? c) +
    (← hexValue? d)

/-- What a backslash and one more character stand for. -/
def escape? : Char → Option Char
  | '"' => some '"'
  | '\\' => some '\\'
  | '/' => some '/'
  | 'b' => some '\x08'
  | 'f' => some '\x0c'
  | 'n' => some '\n'
  | 'r' => some '\r'
  | 't' => some '\t'
  | _ => none

/-- The parts of a text whose opening quote was taken. -/
def readPieces : List Char → Option (List Piece × List Char)
  | [] => none
  | '"' :: rest => some ([], rest)
  | '\\' :: 'u' :: a :: b :: c :: d :: rest => do
    let n ← unit? a b c d
    let (pieces, rest) ← readPieces rest
    return (.ofUnit n :: pieces, rest)
  | '\\' :: e :: rest => do
    let c ← escape? e
    let (pieces, rest) ← readPieces rest
    return (.char c :: pieces, rest)
  | c :: rest =>
    if c.val < 0x20 || c == '\\' then none
    else (readPieces rest).map fun (pieces, rest) => (.char c :: pieces, rest)

/-- A text whose opening quote was taken; no text if a half of a surrogate pair is alone. -/
def readText (cs : List Char) : Option (Option String × List Char) :=
  (readPieces cs).map fun (pieces, rest) => ((Piece.join pieces).map String.ofList, rest)

/-! ### Numbers -/

/-- One or more decimal digits. -/
def readDigits (cs : List Char) : Option (List Char × List Char) :=
  let digits := cs.takeWhile Char.isDigit
  if digits.isEmpty then none else some (digits, cs.dropWhile Char.isDigit)

def digitsValue (digits : List Char) : Nat :=
  digits.foldl (fun value c => 10 * value + (c.toNat - '0'.toNat)) 0

/-- The digits before the point: a single zero, or digits that do not begin with one. -/
def readWhole : List Char → Option (List Char × List Char)
  | '0' :: rest => some (['0'], rest)
  | cs => readDigits cs

/-- The digits behind the point, if there is a point. -/
def readFraction : List Char → Option (List Char × List Char)
  | '.' :: rest => readDigits rest
  | cs => some ([], cs)

/-- The exponent, if there is one. -/
def readExponent : List Char → Option (Option Int × List Char)
  | c :: rest =>
    if c == 'e' || c == 'E' then
      let (negative, rest) := match rest with
        | '-' :: rest => (true, rest)
        | '+' :: rest => (false, rest)
        | rest => (false, rest)
      (readDigits rest).map fun (digits, rest) =>
        let value : Int := digitsValue digits
        (some (if negative then -value else value), rest)
    else some (none, c :: rest)
  | [] => some (none, [])

/-- A number without its sign. -/
def readMagnitude (negative : Bool) (cs : List Char) : Option (Json × List Char) := do
  let (whole, cs) ← readWhole cs
  let (fraction, cs) ← readFraction cs
  let (exponent, cs) ← readExponent cs
  if fraction.isEmpty && exponent.isNone then
    return (number (.integer negative (digitsValue whole)), cs)
  else
    let exponent := exponent.getD 0 - fraction.length
    return (number (.decimal negative (digitsValue (whole ++ fraction)) exponent), cs)

/-! ### Values -/

/-- An object with one more member in front; no value if its key is no text. -/
def withMember (key : Option String) (value object' : Json) : Json :=
  match key, object' with
  | some key, object members => object ((key, value) :: members)
  | _, _ => illFormed

/-- An array with one more item in front. -/
def withItem (item array' : Json) : Json :=
  match array' with
  | array items => array (item :: items)
  | other => other

mutual

/-- A value, blanks in front of it included. -/
def readValue : (bound : Nat) → List Char → Option (Json × List Char)
  | 0, _ => none
  | bound + 1, cs =>
    match skipBlanks cs with
    | 'n' :: 'u' :: 'l' :: 'l' :: rest => some (null, rest)
    | 't' :: 'r' :: 'u' :: 'e' :: rest => some (bool true, rest)
    | 'f' :: 'a' :: 'l' :: 's' :: 'e' :: rest => some (bool false, rest)
    | '"' :: rest => (readText rest).map fun (text, rest) => (text.elim illFormed string, rest)
    | '[' :: rest =>
      match skipBlanks rest with
      | ']' :: rest => some (array [], rest)
      | rest => readItems bound rest
    | '\x7b' :: rest =>
      match skipBlanks rest with
      | '\x7d' :: rest => some (object [], rest)
      | rest => readMembers bound rest
    | '-' :: rest => readMagnitude true rest
    | cs => readMagnitude false cs

/-- One or more items of an array, and its end. -/
def readItems : (bound : Nat) → List Char → Option (Json × List Char)
  | 0, _ => none
  | bound + 1, cs => do
    let (item, cs) ← readValue bound cs
    match skipBlanks cs with
    | ']' :: rest => return (array [item], rest)
    | ',' :: rest =>
      let (items, rest) ← readItems bound rest
      return (withItem item items, rest)
    | _ => none

/-- One or more members of an object, and its end. -/
def readMembers : (bound : Nat) → List Char → Option (Json × List Char)
  | 0, _ => none
  | bound + 1, cs => do
    let '"' :: cs := skipBlanks cs | none
    let (key, cs) ← readText cs
    let ':' :: cs := skipBlanks cs | none
    let (value, cs) ← readValue bound cs
    match skipBlanks cs with
    | '\x7d' :: rest => return (withMember key value (object []), rest)
    | ',' :: rest =>
      let (members, rest) ← readMembers bound rest
      return (withMember key value members, rest)
    | _ => none

end

/-- The value that a text spells, with nothing but blanks around it. -/
def ofText? (text : String) : Option Json := do
  let cs := text.toList
  let (value, rest) ← readValue (2 * cs.length + 1) cs
  if (skipBlanks rest).isEmpty then return value else none

end Chronicle.Json
