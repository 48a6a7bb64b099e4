import Chronicle.Grammar.Basic
/-!
Grammars as plain data: the archived form with tags, and the form without them that people
write.

In both, a rule's right side is a text.  `Grammar.ofData` checks names, kinds and references on
the way in; `Grammar.toData` is its way back, and leaves out left sides without rules.
-/

namespace Chronicle

/-- An archived grammar: names and texts with their tags. -/
structure GrammarData where
  nonterminals : SortedMap String Tag
  terminals : SortedMap String Tag
  /-- For each left side the texts of its right sides. -/
  rules : SortedMap String (SortedMap String Tag)
  start : String
deriving DecidableEq

/-- A grammar without tags, its lists as they were written. -/
structure PlainGrammar where
  nonterminals : List String
  terminals : List String
  /-- For each left side the texts of its right sides. -/
  rules : SortedMap String (List String)
  start : String
deriving DecidableEq

/-- Names or texts without emphasis; a repetition counts once. -/
def PlainGrammar.untagged (names : List String) : SortedMap String Tag :=
  .ofList (names.map (·, .none))

/-- The archived form in which nothing is emphasised. -/
def PlainGrammar.toData (plain : PlainGrammar) : GrammarData where
  nonterminals := untagged plain.nonterminals
  terminals := untagged plain.terminals
  rules := plain.rules.mapValues fun _ => untagged
  start := plain.start

namespace Grammar

/-- Add the archived rules of one left side. -/
def addArchivedGroup (g : Grammar) (left : String) (group : SortedMap String Tag) :
    Except EngineError Grammar := do
  g.requireNonterminal left
  group.toList.foldlM (fun g (text, tag) => do
    let right := Word.ofText text
    g.requireWord right
    return g.withRule ⟨left, right⟩ tag) g

/-- The grammar that archived data describes.  Texts that spell the same word are one rule, with
the tag of the last of them. -/
def ofData (data : GrammarData) : Except EngineError Grammar := do
  let g : Grammar := ⟨.empty, .empty, .empty, data.start⟩
  let g ← data.nonterminals.toList.foldlM
    (fun g (name, tag) => g.withSymbol name tag (some .nonterminal)) g
  let g ← data.terminals.toList.foldlM
    (fun g (name, tag) => g.withSymbol name tag (some .terminal)) g
  g.requireNonterminal data.start
  data.rules.toList.foldlM (fun g (left, group) => g.addArchivedGroup left group) g

def ofPlain (plain : PlainGrammar) : Except EngineError Grammar := ofData plain.toData

def toData (g : Grammar) : GrammarData where
  nonterminals := g.nonterminals
  terminals := g.terminals
  rules := (g.rules.filter fun _ group => !group.isEmpty).mapValues fun _ group =>
    .ofList (group.toList.map fun (right, tag) => (right.text, tag))
  start := g.start

end Grammar

end Chronicle
