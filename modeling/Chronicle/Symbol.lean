import Chronicle.Tag
/-!
Grammar symbols and the rule for their names.

A name is one or more ASCII letters, digits and marks out of a fixed list; `eps` is reserved for
the empty word.  The first character decides the kind: an upper-case letter makes a nonterminal,
anything else a terminal.
-/

namespace Chronicle

/-- The text of the empty word; no symbol may be called so. -/
def epsilonText : String := "eps"

/-- The two kinds of grammar symbols. -/
inductive SymbolKind
  | terminal
  | nonterminal
deriving DecidableEq, Repr

namespace SymbolKind

def text : SymbolKind → String
  | terminal => "terminal"
  | nonterminal => "nonterminal"

/-- The marks that a name may hold besides letters and digits. -/
def punctuation : List Char :=
  ['~', '!', '@', '#', '_', '\'', ';', ':', '+', '-', '*', '/', '(', ')', '[', ']', '?']

def isNameChar (c : Char) : Bool := c.isAlphanum || punctuation.contains c

/-- The kind that a name dictates, if the name may be given to a symbol at all. -/
def ofName? (name : String) : Option SymbolKind :=
  match name.toList with
  | [] => none
  | first :: rest =>
    if name == epsilonText || !(first :: rest).all isNameChar then none
    else if first.isUpper then some nonterminal
    else some terminal

end SymbolKind

/-- A symbol of a grammar as a reader sees it. -/
structure Symbol where
  name : String
  kind : SymbolKind
  tag : Tag
deriving DecidableEq, Repr

end Chronicle
