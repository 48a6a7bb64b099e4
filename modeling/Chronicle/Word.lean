import Chronicle.Symbol
import Chronicle.Text.Blank
/-!
Words over symbol names, and the two sides of a rule.

The text of a word is its symbols joined by single blanks; the empty word is written `eps`.
Reading takes any blanks as separators, so a word comes back from its text whenever its symbols
are non-empty, hold no blank, and are not the single symbol `eps`.
-/

namespace Chronicle

/-- A sequence of symbol names. -/
structure Word where
  symbols : List String
deriving DecidableEq, Repr, Inhabited

namespace Word

/-- Words are ordered symbol by symbol. -/
instance : Ord Word := ⟨fun a b => compare a.symbols b.symbols⟩

theorem compare_def (a b : Word) : compare a b = compare a.symbols b.symbols := rfl

instance : Std.TransOrd Word where
  eq_swap {a b} := Std.OrientedOrd.eq_swap (a := a.symbols) (b := b.symbols)
  isLE_trans {a b c} := Std.TransOrd.isLE_trans (a := a.symbols) (b := b.symbols) (c := c.symbols)

instance : Std.LawfulEqOrd Word where
  eq_of_compare {a b} h := by
    have h : a.symbols = b.symbols := Std.LawfulEqOrd.eq_of_compare h
    cases a; cases b; cases h; rfl

/-- The word without symbols. -/
def epsilon : Word := ⟨[]⟩

/-- The word that a text spells; a text of blanks alone spells the empty word. -/
def ofText (text : String) : Word :=
  let symbols := Text.words text
  if symbols = [epsilonText] then epsilon else ⟨symbols⟩

def text (w : Word) : String :=
  if w.symbols.isEmpty then epsilonText else " ".intercalate w.symbols

def length (w : Word) : Nat := w.symbols.length

def isEmpty (w : Word) : Bool := w.symbols.isEmpty

def contains (w : Word) (symbol : String) : Bool := w.symbols.contains symbol

def get? (w : Word) (i : Nat) : Option String := w.symbols[i]?

end Word

/-- A rule without its tag: what it replaces, and by what. -/
structure RuleKey where
  left : String
  right : Word
deriving DecidableEq, Repr

namespace RuleKey

def text (key : RuleKey) : String := key.left ++ " -> " ++ key.right.text

/-- A rule that replaces a symbol by itself alone. -/
def isLoop (key : RuleKey) : Bool := key.right.symbols == [key.left]

end RuleKey

/-- A rule of a grammar as a reader sees it. -/
structure Rule where
  key : RuleKey
  tag : Tag
deriving DecidableEq, Repr

end Chronicle
