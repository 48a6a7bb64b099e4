/-!
The four kinds of auxiliary structures that a procedure keeps next to its grammar.
-/

namespace Chronicle

/-- What an auxiliary structure is. -/
inductive StructureKind
  | symbolSet
  | table
  | symbolMapping
  | stack
deriving DecidableEq, Repr

def StructureKind.text : StructureKind → String
  | symbolSet => "symbol set"
  | table => "table"
  | symbolMapping => "symbol mapping"
  | stack => "stack"

end Chronicle
