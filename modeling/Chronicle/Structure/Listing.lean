/-!
The two structures without deferred changes: lists of symbol pairs, and stacks.
-/

namespace Chronicle

/-- An ordered list of pairs, read as "the first maps to the second". -/
structure SymbolMapping where
  pairs : List (String × String)
deriving DecidableEq, Inhabited

namespace SymbolMapping

def empty : SymbolMapping := ⟨[]⟩

def push (m : SymbolMapping) (source target : String) : SymbolMapping :=
  ⟨m.pairs ++ [(source, target)]⟩

/-- What the first pair that starts with `source` maps to. -/
def get? (m : SymbolMapping) (source : String) : Option String :=
  (m.pairs.find? (·.1 == source)).map (·.2)

end SymbolMapping

/-- A stack of symbols, the bottom first. -/
structure SymbolStack where
  items : List String
deriving DecidableEq, Inhabited

namespace SymbolStack

def empty : SymbolStack := ⟨[]⟩

def push (s : SymbolStack) (item : String) : SymbolStack := ⟨s.items ++ [item]⟩

def top? (s : SymbolStack) : Option String := s.items.getLast?

/-- Take the top away; answers what it was. -/
def pop (s : SymbolStack) : Option String × SymbolStack := (s.top?, ⟨s.items.dropLast⟩)

end SymbolStack

end Chronicle
