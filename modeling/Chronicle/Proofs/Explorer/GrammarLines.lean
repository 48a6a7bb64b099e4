import Chronicle.Explorer.GrammarPane
import Chronicle.Proofs.Grammar.Listing
/-!
The lines of a grammar.

The rules are written one by one, and a line ends when the left side changes.  What counts of a
draft is therefore the list of lines that it ends in (`Draft.ended`): a group of rules with a left
side other than the one before adds its line to that list (`ended_group`), so rules that come group
by group make a line for each group.  That they come like this is `Grammar.Grouped`.
-/

namespace Chronicle.Explorer.GrammarPane

open Chronicle.Screen

variable {g : Grammar} {d : Draft} {left : String} {r : Rule} {rules : List Rule}

namespace Draft

/-- The lines, once the one that is being written is ended. -/
def ended (d : Draft) : List Line := d.flush.lines.toList

end Draft

end Chronicle.Explorer.GrammarPane
