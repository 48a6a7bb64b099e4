import Chronicle.Json.Basic
/-!
Writing JSON, on one line or indented.

Inside texts only the quote, the backslash and the control characters below the blank are
escaped; everything else stands for itself.  The indented form puts every item and member on a
line of its own, two blanks deeper than its container; an empty container stays on one line.
-/

namespace Chronicle.Json

/-- How a character is written inside a text. -/
def escapedChar (c : Char) : List Char :=
  if c == '"' then ['\\', '"']
  else if c == '\\' then ['\\', '\\']
  else if c == '\x08' then ['\\', 'b']
  else if c == '\x0c' then ['\\', 'f']
  else if c == '\n' then ['\\', 'n']
  else if c == '\r' then ['\\', 'r']
  else if c == '\t' then ['\\', 't']
  else if c.val < 0x20 then
    ['\\', 'u', '0', '0', Nat.digitChar (c.toNat / 16), Nat.digitChar (c.toNat % 16)]
  else [c]

/-- A text in quotes. -/
def quotedText (s : String) : List Char := '"' :: s.toList.flatMap escapedChar ++ ['"']

def Number.chars : Number → List Char
  | integer negative magnitude => (if negative then ['-'] else []) ++ Nat.toDigits 10 magnitude
  | decimal negative mantissa exponent =>
    (if negative then ['-'] else []) ++ Nat.toDigits 10 mantissa ++ 'e' ::
      (if exponent < 0 then ['-'] else []) ++ Nat.toDigits 10 exponent.natAbs

/-- What a value without parts looks like. -/
def nullText : List Char := ['n', 'u', 'l', 'l']

def boolText (b : Bool) : List Char :=
  if b then ['t', 'r', 'u', 'e'] else ['f', 'a', 'l', 's', 'e']

mutual

/-- A value without any blanks. -/
def compact : Json → List Char
  | null | illFormed => nullText
  | bool b => boolText b
  | number n => n.chars
  | string s => quotedText s
  | array [] => ['[', ']']
  | array (item :: items) => '[' :: compact item ++ compactItems items
  | object [] => ['\x7b', '\x7d']
  | object ((key, value) :: members) =>
    '\x7b' :: quotedText key ++ ':' :: compact value ++ compactMembers members

/-- The further items of an array and its end. -/
def compactItems : List Json → List Char
  | [] => [']']
  | item :: items => ',' :: compact item ++ compactItems items

/-- The further members of an object and its end. -/
def compactMembers : List (String × Json) → List Char
  | [] => ['\x7d']
  | (key, value) :: members =>
    ',' :: quotedText key ++ ':' :: compact value ++ compactMembers members

end

/-- The beginning of a line that is `depth` containers deep. -/
def newLine (depth : Nat) : List Char := '\n' :: List.replicate (2 * depth) ' '

mutual

/-- A value over several lines, inside `depth` containers. -/
def pretty (depth : Nat) : Json → List Char
  | null | illFormed => nullText
  | bool b => boolText b
  | number n => n.chars
  | string s => quotedText s
  | array [] => ['[', ']']
  | array (item :: items) =>
    '[' :: newLine (depth + 1) ++ pretty (depth + 1) item ++ prettyItems depth items
  | object [] => ['\x7b', '\x7d']
  | object ((key, value) :: members) =>
    '\x7b' :: newLine (depth + 1) ++ quotedText key ++ ':' :: ' ' :: pretty (depth + 1) value ++
      prettyMembers depth members

/-- The further items of an array inside `depth` containers, and its end. -/
def prettyItems (depth : Nat) : List Json → List Char
  | [] => newLine depth ++ [']']
  | item :: items =>
    ',' :: newLine (depth + 1) ++ pretty (depth + 1) item ++ prettyItems depth items

/-- The further members of an object inside `depth` containers, and its end. -/
def prettyMembers (depth : Nat) : List (String × Json) → List Char
  | [] => newLine depth ++ ['\x7d']
  | (key, value) :: members =>
    ',' :: newLine (depth + 1) ++ quotedText key ++ ':' :: ' ' :: pretty (depth + 1) value ++
      prettyMembers depth members

end

/-- The text of a value on one line. -/
def compactText (value : Json) : String := String.ofList (compact value)

/-- The text of a value over several lines. -/
def prettyText (value : Json) : String := String.ofList (pretty 0 value)

end Chronicle.Json
