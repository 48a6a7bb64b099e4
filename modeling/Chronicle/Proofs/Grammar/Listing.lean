import Chronicle.Proofs.Grammar.Integrity
/-!
The order of listings.

A listing begins with the start symbol, if that has an entry, and goes on in the order of names
(`Precedes`).  The rules are listed group by group: `leftSides` are the left sides that have rules,
and the rules of each stand side by side (`ruleList_eq`).
-/

namespace Chronicle

namespace Grammar

variable {g : Grammar} {left : String} {rule : Rule}

/-- In a listing that begins with `first`, the name `a` stands before the name `b`. -/
def Precedes (first a b : String) : Prop := b ≠ first ∧ (a = first ∨ compare a b = .lt)

end Grammar

end Chronicle
