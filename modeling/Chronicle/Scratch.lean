import Chronicle.SortedMap.Basic
import Chronicle.Text.Quoted
import Chronicle.Word
/-!
Scratch data: what the programs of one run keep for each other from step to step without making
it part of the recorded states.

Values are kept by key and have one of four kinds.  Looking a key up asks for a kind, and a value
of another kind does not count.
-/

namespace Chronicle

namespace Scratch

/-- The kinds of values. -/
inductive Kind
  | number
  | text
  | list
  | rules
deriving DecidableEq, Repr

/-- What a value of the given kind is. -/
def Kind.Content : Kind → Type
  | number => Nat
  | text => String
  | list => List String
  | rules => List RuleKey

/-- A value of any kind. -/
inductive Value
  | number (n : Nat)
  | text (s : String)
  | list (items : List String)
  | rules (queue : List RuleKey)
deriving DecidableEq

namespace Value

def of : (kind : Kind) → kind.Content → Value
  | .number, n => number n
  | .text, s => text s
  | .list, items => list items
  | .rules, queue => rules queue

/-- The content of a value, if it is of the given kind. -/
def as? : (kind : Kind) → Value → Option kind.Content
  | .number, number n => some n
  | .text, text s => some s
  | .list, list items => some items
  | .rules, rules queue => some queue
  | _, _ => none

@[simp] theorem as?_of (kind : Kind) (content : kind.Content) :
    (of kind content).as? kind = some content := by
  cases kind <;> rfl

end Value

end Scratch

/-- The scratch data of a run. -/
structure Scratch where
  values : SortedMap String Scratch.Value
deriving DecidableEq

namespace Scratch

def empty : Scratch := ⟨.empty⟩

instance : Inhabited Scratch := ⟨empty⟩

def size (d : Scratch) : Nat := d.values.size

def isEmpty (d : Scratch) : Bool := d.values.isEmpty

def contains (d : Scratch) (key : String) : Bool := d.values.contains key

/-- Store a value, in exchange for a value of any kind. -/
def insert (d : Scratch) (kind : Kind) (key : String) (content : kind.Content) : Scratch :=
  ⟨d.values.insert key (.of kind content)⟩

/-- The value under a key, if it is of the given kind. -/
def get? (d : Scratch) (kind : Kind) (key : String) : Option kind.Content :=
  (d.values.get? key).bind (Value.as? kind)

/-- Change the value under a key; answers whether there is one of the given kind. -/
def change (d : Scratch) (kind : Kind) (key : String) (f : kind.Content → kind.Content) :
    Bool × Scratch :=
  match d.get? kind key with
  | some content => (true, d.insert kind key (f content))
  | none => (false, d)

/-- The value under a key; if there is none of the given kind, `content` becomes the value. -/
def getOrInsert (d : Scratch) (kind : Kind) (key : String) (content : kind.Content) :
    kind.Content × Scratch :=
  match d.get? kind key with
  | some present => (present, d)
  | none => (content, d.insert kind key content)

/-- Remove the value under a key; answers whether there was one. -/
def remove (d : Scratch) (key : String) : Bool × Scratch :=
  (d.contains key, ⟨d.values.erase key⟩)

/-- The keys, for a reader who looks for mistakes. -/
def debugText (d : Scratch) : String :=
  "AuxData \x7b keys: [" ++ ", ".intercalate (d.values.keys.map Text.quoted) ++ "] \x7d"

end Scratch

end Chronicle
