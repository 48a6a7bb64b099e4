/-!
JSON values.

Numbers are kept exactly, as integers or as a mantissa with a power of ten.  An object is the list
of its members in the order of the text, so a key may occur more than once.  One constructor is no
value of its own: `illFormed` stands for a piece that is spelled like a value but means none,
because a text in it has half a surrogate pair.
-/

namespace Chronicle

namespace Json

/-- A number as it was spelled. -/
inductive Number
  /-- Digits alone, with or without a minus sign. -/
  | integer (negative : Bool) (magnitude : Nat)
  /-- A number with a fraction or an exponent: `mantissa * 10 ^ exponent`. -/
  | decimal (negative : Bool) (mantissa : Nat) (exponent : Int)
deriving DecidableEq, Repr

namespace Number

def ofNat (n : Nat) : Number := integer false n

def ofInt (i : Int) : Number := integer (i < 0) i.natAbs

/-- The integer that the digits spell.  Minus zero is not one. -/
def toInt? : Number → Option Int
  | integer false magnitude => some magnitude
  | integer true 0 => none
  | integer true magnitude => some (-magnitude)
  | decimal .. => none

end Number

end Json

/-- A JSON value. -/
inductive Json
  | null
  | bool (b : Bool)
  | number (n : Json.Number)
  | string (s : String)
  | array (items : List Json)
  | object (members : List (String × Json))
  | illFormed

namespace Json

instance : Inhabited Json := ⟨null⟩

/-- A number that counts. -/
def nat (n : Nat) : Json := number (.ofNat n)

def strings (items : List String) : Json := array (items.map string)

/-- `null`, or the value there is. -/
def option : Option Json → Json
  | some value => value
  | none => null

/-- The value of the last member with the given key. -/
def member? : Json → String → Option Json
  | object members, key => (members.reverse.find? (·.1 == key)).map (·.2)
  | _, _ => none

end Json

end Chronicle
