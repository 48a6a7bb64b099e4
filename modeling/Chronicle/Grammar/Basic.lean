import Chronicle.Edit
import Chronicle.SortedMap.Basic
/-!
Grammars whose entries carry tags.

A grammar holds its symbols in two maps, one per kind, its rules grouped by left side, and the
name of its start symbol.  What a reader sees lists the start symbol and its rules first and all
else in the order of names and words.
-/

namespace Chronicle

/-- A grammar; every symbol and every rule has a tag. -/
structure Grammar where
  nonterminals : SortedMap String Tag
  terminals : SortedMap String Tag
  /-- For each left side the right sides of its rules. -/
  rules : SortedMap String (SortedMap Word Tag)
  start : String
deriving DecidableEq

namespace Grammar

/-! ### Look-ups -/

/-- The symbol with the given name. -/
def symbol? (g : Grammar) (name : String) : Option Symbol :=
  match g.nonterminals.get? name with
  | some tag => some ⟨name, .nonterminal, tag⟩
  | none => (g.terminals.get? name).map fun tag => ⟨name, .terminal, tag⟩

def containsSymbol (g : Grammar) (name : String) : Bool :=
  g.nonterminals.contains name || g.terminals.contains name

/-- Is `name` a nonterminal of the grammar? -/
def hasNonterminal (g : Grammar) (name : String) : Bool := g.nonterminals.contains name

/-- The tag of a rule, if the grammar has the rule. -/
def ruleTag? (g : Grammar) (key : RuleKey) : Option Tag :=
  (g.rules.get? key.left).bind (·.get? key.right)

def rule? (g : Grammar) (key : RuleKey) : Option Rule := (g.ruleTag? key).map (⟨key, ·⟩)

/-! ### Listings -/

/-- The entries of a map with that of `first` in front. -/
def startingWith {α : Type} (first : String) (m : SortedMap String α) : List (String × α) :=
  ((m.get? first).toList.map (first, ·)) ++ m.toList.filter (·.1 != first)

/-- The nonterminals, the start symbol first. -/
def nonterminalList (g : Grammar) : List Symbol :=
  (startingWith g.start g.nonterminals).map fun (name, tag) => ⟨name, .nonterminal, tag⟩

def terminalList (g : Grammar) : List Symbol :=
  g.terminals.toList.map fun (name, tag) => ⟨name, .terminal, tag⟩

def symbolList (g : Grammar) : List Symbol := g.nonterminalList ++ g.terminalList

/-- The rules of one group. -/
def groupRules (left : String) (group : SortedMap Word Tag) : List Rule :=
  group.toList.map fun (right, tag) => ⟨⟨left, right⟩, tag⟩

/-- The rules, those of the start symbol first. -/
def ruleList (g : Grammar) : List Rule :=
  (startingWith g.start g.rules).flatMap fun (left, group) => groupRules left group

/-- The rules with the given left side. -/
def rulesFor (g : Grammar) (left : String) : List Rule :=
  (g.rules.get? left).elim [] (groupRules left)

def nonterminalCount (g : Grammar) : Nat := g.nonterminals.size

def terminalCount (g : Grammar) : Nat := g.terminals.size

def ruleCount (g : Grammar) : Nat := g.ruleList.length

/-! ### Requirements of the operations -/

/-- Fails unless `name` is a nonterminal. -/
def requireNonterminal (g : Grammar) (name : String) : Except EngineError Unit :=
  match g.symbol? name with
  | some ⟨_, .nonterminal, _⟩ => .ok ()
  | some ⟨_, .terminal, _⟩ => .error (.symbolKind name .nonterminal)
  | none => .error (.unknownSymbol name)

/-- Fails unless the grammar has every symbol of `word`; names the first it has not. -/
def requireWord (g : Grammar) (word : Word) : Except EngineError Unit :=
  match word.symbols.find? (!g.containsSymbol ·) with
  | some missing => .error (.unknownSymbol missing)
  | none => .ok ()

/-- The grammar with one more symbol, or the symbol with another tag.  The name decides the kind;
it has to be the expected one if one is expected. -/
def withSymbol (g : Grammar) (name : String) (tag : Tag) (expected : Option SymbolKind) :
    Except EngineError Grammar :=
  match SymbolKind.ofName? name with
  | none => .error (.invalidSymbolName name expected)
  | some kind =>
    if expected.any (· ≠ kind) then .error (.invalidSymbolName name expected)
    else match kind with
      | .nonterminal => .ok { g with nonterminals := g.nonterminals.insert name tag }
      | .terminal => .ok { g with terminals := g.terminals.insert name tag }

/-- The grammar with one more rule, or the rule with another tag. -/
def withRule (g : Grammar) (key : RuleKey) (tag : Tag) : Grammar :=
  let group := (g.rules.get? key.left).getD .empty
  { g with rules := g.rules.insert key.left (group.insert key.right tag) }

/-- The grammar that has a start symbol and nothing else. -/
def ofStart (start : String) : Except EngineError Grammar :=
  withSymbol ⟨.empty, .empty, .empty, start⟩ start .none (some .nonterminal)

end Grammar

end Chronicle
