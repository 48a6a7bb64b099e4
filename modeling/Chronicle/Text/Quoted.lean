import Chronicle.Text.Unseen
/-!
Texts in double quotes, for listings that are to show every character.

A quote, a backslash and the usual control characters are written as a backslash and one more
character; any other character that cannot be seen by itself is written by its number in
hexadecimal.
-/

namespace Chronicle.Text

/-- The digits of a number in base sixteen, lower-case letters above nine. -/
def hexDigits (n : Nat) : List Char := Nat.toDigits 16 n

/-- How a character is written inside double quotes. -/
def quotedChar (c : Char) : List Char :=
  if c == '"' then ['\\', '"']
  else if c == '\\' then ['\\', '\\']
  else if c == '\n' then ['\\', 'n']
  else if c == '\r' then ['\\', 'r']
  else if c == '\t' then ['\\', 't']
  else if c == '\x00' then ['\\', '0']
  else if isUnseen c then ['\\', 'u', '\x7b'] ++ hexDigits c.toNat ++ ['\x7d']
  else [c]

/-- A text in double quotes. -/
def quoted (text : String) : String :=
  String.ofList ('"' :: text.toList.flatMap quotedChar ++ ['"'])

end Chronicle.Text
