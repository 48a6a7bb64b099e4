import Chronicle.Grammar.Data
/-!
Changing a grammar while a step runs.

Every operation but `finalize` only proposes: what is added is tagged `new`, what is removed
stays and is tagged `removed`.  `finalize` makes the proposals true: it deletes what is tagged
`removed`, lets every other tag fade, and then fails if something that is left still mentions a
symbol that is gone.  Removing a symbol does not remove the rules that mention it.
-/

namespace Chronicle.Grammar

/-! ### Tags -/

/-- Offer a tag to a symbol; answers the tag the symbol carries then. -/
def markSymbol (name : String) (tag : Tag) : Edit Grammar Tag := .atomic fun g =>
  match g.nonterminals.get? name with
  | some present =>
    let tag := present.resolve tag
    .ok (tag, { g with nonterminals := g.nonterminals.insert name tag })
  | none =>
    match g.terminals.get? name with
    | some present =>
      let tag := present.resolve tag
      .ok (tag, { g with terminals := g.terminals.insert name tag })
    | none => .error (.unknownSymbol name)

/-- Offer a tag to a rule; answers the tag the rule carries then. -/
def markRule (key : RuleKey) (tag : Tag) : Edit Grammar Tag := .atomic fun g =>
  match g.ruleTag? key with
  | some present =>
    let tag := present.resolve tag
    .ok (tag, g.withRule key tag)
  | none => .error (.unknownRule key)

/-- The grammar with every tag changed by `f`. -/
def mapTags (g : Grammar) (f : Tag → Tag) : Grammar :=
  { g with
    nonterminals := g.nonterminals.mapValues fun _ => f
    terminals := g.terminals.mapValues fun _ => f
    rules := g.rules.mapValues fun _ group => group.mapValues fun _ => f }

/-- Take all emphasis away; removals stay proposed. -/
def clearTags (g : Grammar) : Grammar := g.mapTags (·.resolve .none)

/-! ### Proposals -/

/-- Add a symbol unless the grammar has it. -/
def addSymbol (name : String) : Edit Grammar Symbol := .atomic fun g => do
  let g ← if g.containsSymbol name then pure g else g.withSymbol name .new none
  match g.symbol? name with
  | some symbol => return (symbol, g)
  | none => throw (.unknownSymbol name)

/-- Put `/0` behind a name as long as the name is taken, but at most `rounds` times. -/
def lengthen (taken : String → Bool) : Nat → String → String
  | 0, name => name
  | rounds + 1, name => if taken name then lengthen taken rounds (name ++ "/0") else name

/-- A name that the grammar does not use, made from the desired one.  Each round takes up another
symbol of the grammar, so there are at most as many rounds as symbols. -/
def freshName (g : Grammar) (desired : String) : String :=
  lengthen g.containsSymbol (g.nonterminals.size + g.terminals.size) desired

/-- Add a nonterminal under a name made from the desired one; answers the name. -/
def newNonterminal (desired : String) : Edit Grammar String := do
  if SymbolKind.ofName? desired ≠ some .nonterminal then
    throw (.invalidSymbolName desired (some .nonterminal))
  let name := (← get).freshName desired
  let _ ← addSymbol name
  return name

def removeSymbol (name : String) : Edit Grammar Unit := discard (markSymbol name .removed)

/-- Add a rule, or mark it as a duplicate if the grammar has it. -/
def addRule (left : String) (right : Word) : Edit Grammar RuleKey := .atomic fun g => do
  g.requireNonterminal left
  g.requireWord right
  let key : RuleKey := ⟨left, right⟩
  let tag := (g.ruleTag? key).elim .new (·.resolve .duplicate)
  return (key, g.withRule key tag)

def removeRule (key : RuleKey) : Edit Grammar Unit := discard (markRule key .removed)

/-- Exchange the right side of a rule.  The removal of the old rule stays proposed when the new
right side is refused. -/
def replaceRule (old : RuleKey) (right : Word) : Edit Grammar RuleKey := do
  removeRule old
  let key ← addRule old.left right
  let _ ← markRule key .replaced
  return key

def changeStart (name : String) : Edit Grammar Unit := .atomic fun g => do
  g.requireNonterminal name
  return ((), { g with start := name })

/-! ### Making the proposals true -/

/-- The grammar without what is tagged `removed`, all other tags faded. -/
def settled (g : Grammar) : Grammar :=
  let kept : Grammar :=
    { g with
      nonterminals := g.nonterminals.filter fun _ tag => tag ≠ .removed
      terminals := g.terminals.filter fun _ tag => tag ≠ .removed
      rules := (g.rules.mapValues fun _ group => group.filter fun _ tag => tag ≠ .removed).filter
        fun _ group => !group.isEmpty }
  kept.mapTags Tag.decay

/-- The first symbol of a rule, left side first, that the grammar lacks. -/
def missingSymbol? (g : Grammar) (key : RuleKey) : Option String :=
  (key.left :: key.right.symbols).find? (!g.containsSymbol ·)

/-- Fails if the start symbol or a rule mentions a symbol that is gone.  The start symbol is
looked at first, then the rules in the order of their keys. -/
def checkReferences (g : Grammar) : Except EngineError Unit :=
  if !g.hasNonterminal g.start then .error (.danglingSymbol g.start .start)
  else
    let keys := g.rules.toList.flatMap fun (left, group) => group.keys.map (RuleKey.mk left)
    match keys.findSome? fun key => (g.missingSymbol? key).map (·, key) with
    | some (symbol, key) => .error (.danglingSymbol symbol (.rule key))
    | none => .ok ()

/-- Make the proposals true.  The grammar is changed also when the check fails. -/
def finalize : Edit Grammar Unit := do
  modify settled
  .reading checkReferences

end Chronicle.Grammar
