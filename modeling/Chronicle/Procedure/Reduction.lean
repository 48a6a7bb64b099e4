import Chronicle.Run.Action
import Chronicle.Text.Decimal
/-!
Reduction: the grammar without useless symbols and rules.

```text
remove rules X -> X
remove non-generating nonterminals
    initialize S/0
    (repeat) S/i -> S/i+1
    remove nonterminals outside S
remove non-reachable nonterminals
    initialize H/0
    (repeat) H/i -> H/i+1
    remove nonterminals outside H
clean up
```

A nonterminal is generating if it derives a word of terminals, and reachable if a word derived
from the start symbol mentions it.  Both sets are built by a step that repeats itself as long as
it adds something; it reads the effective members and proposes new ones.  Removing a nonterminal
also removes every rule that mentions it; the start symbol stays even if it is not generating.
-/

namespace Chronicle.Reduction

/-- The steps of the procedure. -/
inductive Step
  | main
  | removeSelfLoops
  | removeNongenerating
  | initGenerating
  | growGenerating
  | removeOutsideGenerating
  | removeUnreachable
  | initReachable
  | growReachable
  | removeOutsideReachable
  | cleanUp
deriving DecidableEq, Repr

/-- The id of the set of generating nonterminals. -/
def generatingId : String := "generating"

/-- The id of the set of reachable nonterminals. -/
def reachableId : String := "reachable"

/-! ### What the steps do to a state -/

/-- Propose the removal of all given rules. -/
def removeRules (keys : List RuleKey) : Edit Snapshot Unit :=
  Snapshot.editGrammar (keys.forM Grammar.removeRule)

/-- Offer a tag to all given symbols. -/
def markSymbols (names : List String) (tag : Tag) : Edit Snapshot Unit :=
  Snapshot.editGrammar (names.forM fun name => discard (Grammar.markSymbol name tag))

/-- Propose the removal of rules that replace a symbol by itself alone. -/
def dropSelfLoops : Edit Snapshot Unit := do
  removeRules (((← get).grammar.ruleList.map (·.key)).filter RuleKey.isLoop)

/-- Propose the removal of nonterminals and of every rule that mentions one of them. -/
def removeNonterminals (doomed : SortedSet String) : Edit Snapshot Unit := do
  let keys := (← get).grammar.ruleList.map (·.key)
  removeRules (keys.filter fun key =>
    doomed.contains key.left || key.right.symbols.any doomed.contains)
  Snapshot.editGrammar (doomed.toList.forM Grammar.removeSymbol)

/-- The last round that is counted; the name of the one after it starts over at zero. -/
def maxRound : Nat := 0xFFFFFFFF

/-- The name of a set after another round: `S/4` follows `S/3`, and `S/1` follows any name of
another shape. -/
def nextRoundName (letter name : String) : String :=
  let lead := (letter ++ "/").toList
  let round :=
    if lead.isPrefixOf name.toList then
      (Text.parseDecimal? maxRound (String.ofList (name.toList.drop lead.length))).getD 0
    else 0
  letter ++ "/" ++ toString ((round + 1) % (maxRound + 1))

/-- Count another round in the name of a set, which has to be there. -/
def countRound (id letter : String) : Edit Snapshot Unit := Snapshot.editStructures <|
  .atomic fun bag => do
    let s ← bag.require id
    return ((), bag.put id { s with name := nextRoundName letter s.name })

/-- Give a structure another name, if it is there. -/
def rename (id name : String) : Edit Snapshot Unit := Snapshot.editStructures do
  modify fun bag => (bag.editEntry id fun s => ((), { s with name })).2

/-- Propose a member of a set; answers whether it is not effective yet. -/
def addMember (id item : String) : Edit Snapshot Bool :=
  Snapshot.editStructures (Bag.editContent .symbolSet id fun set => SymbolSet.add set item)

/-- Does the right side mention no nonterminal that `known` rejects? -/
def generates (g : Grammar) (known : String → Bool) (right : Word) : Bool :=
  right.symbols.all fun symbol => !g.hasNonterminal symbol || known symbol

/-- Open the set of generating nonterminals with the left sides of terminal rules. -/
def openGenerating : Edit Snapshot Unit := do
  let g := (← get).grammar
  markSymbols (g.terminalList.map (·.name)) .attentionWasSet
  let terminalRules := (g.ruleList.map (·.key)).filter fun key =>
    generates g (fun _ => false) key.right
  let _ ← Snapshot.editStructures (Bag.openContent .symbolSet generatingId "S/0")
  terminalRules.forM fun key => do
    let _ ← addMember generatingId key.left
    let _ ← Snapshot.editGrammar (Grammar.markRule key .attentionWasSet)
    markSymbols [key.left] .attentionWillTransfer

/-- Propose candidates as members of a set; answers those that are not effective yet. -/
def proposeMembers (id : String) (candidates : List String) : Edit Snapshot (List String) :=
  candidates.filterM (addMember id)

/-- The effective members of a set. -/
def effectiveMembers (id : String) : Edit Snapshot (SortedSet String) := do
  let set ← Edit.ofExcept ((← get).structures.content .symbolSet id)
  return (set : SymbolSet).effective

/-- Add the left sides of rules over known generating nonterminals; answers whether any is new. -/
def extendGenerating : Edit Snapshot Bool := do
  countRound generatingId "S"
  let known ← effectiveMembers generatingId
  let g := (← get).grammar
  let candidates := (g.ruleList.map (·.key)).filter fun key => generates g known.contains key.right
  let grown ← proposeMembers generatingId (candidates.map (·.left))
  markSymbols grown .attentionWillTransfer
  return !grown.isEmpty

/-- Propose the removal of nonterminals outside the generating set; the start symbol stays. -/
def keepGenerating : Edit Snapshot Unit := do
  rename generatingId "S"
  let known ← effectiveMembers generatingId
  let g := (← get).grammar
  let names := g.nonterminalList.map (·.name)
  removeNonterminals (.ofList (names.filter fun name => !known.contains name && name != g.start))

/-- Take all emphasis away, and the set that is no longer needed. -/
def wipe (id : String) : Edit Snapshot Unit := do
  Snapshot.editGrammar (modify Grammar.clearTags)
  Snapshot.editStructures (discard (Bag.remove id))

/-- Open the set of reachable nonterminals with the start symbol. -/
def openReachable : Edit Snapshot Unit := do
  let start := (← get).grammar.start
  let _ ← Snapshot.editStructures (Bag.openContent .symbolSet reachableId "H/0")
  let _ ← addMember reachableId start
  markSymbols [start] .attentionWillTransfer

/-- Add the nonterminals in the rules of known reachable ones; answers whether any is new. -/
def extendReachable : Edit Snapshot Bool := do
  countRound reachableId "H"
  let known ← effectiveMembers reachableId
  let g := (← get).grammar
  let candidates := (g.ruleList.map (·.key)).flatMap fun key =>
    if known.contains key.left then key.right.symbols.filter g.hasNonterminal else []
  let grown ← proposeMembers reachableId candidates
  markSymbols grown .attentionWillTransfer
  return !grown.isEmpty

/-- Propose the removal of nonterminals outside the reachable set. -/
def keepReachable : Edit Snapshot Unit := do
  rename reachableId "H"
  let known ← effectiveMembers reachableId
  let names := (← get).grammar.nonterminalList.map (·.name)
  removeNonterminals (.ofList (names.filter fun name => !known.contains name))

/-! ### The steps -/

/-- The programs of the steps; `embed` gives their names in the run. -/
def program {P : Type} (embed : Step → P) : Step → Script P Unit
  | .main => do
    Script.setName "convert to reduced normal form"
    Script.schedule (embed .removeSelfLoops)
    Script.schedule (embed .removeNongenerating)
    Script.schedule (embed .removeUnreachable)
    Script.schedule (embed .cleanUp)
  | .removeSelfLoops => do
    Script.setName "remove rules of type X -> X"
    Script.editSnapshot dropSelfLoops
  | .removeNongenerating => do
    Script.setName
      "remove nonterminals that are not 'generating' - can't produce a terminal word"
    Script.schedule (embed .initGenerating)
    Script.schedule (embed .growGenerating)
    Script.schedule (embed .removeOutsideGenerating)
  | .initGenerating => do
    Script.setName "initialize 'generating' set construction"
    Script.editSnapshot openGenerating
  | .growGenerating => do
    Script.setName "iterate 'generating' set construction"
    if ← Script.editSnapshot extendGenerating then Script.requestRepeat
  | .removeOutsideGenerating => do
    Script.setName "remove other nonterminals"
    Script.editSnapshot keepGenerating
  | .removeUnreachable => do
    Script.setName "remove non-reachable nonterminals"
    Script.editSnapshot (wipe generatingId)
    Script.schedule (embed .initReachable)
    Script.schedule (embed .growReachable)
    Script.schedule (embed .removeOutsideReachable)
  | .initReachable => do
    Script.setName "initialize 'reachable' set construction"
    Script.editSnapshot openReachable
  | .growReachable => do
    Script.setName "iterate 'reachable' set construction"
    if ← Script.editSnapshot extendReachable then Script.requestRepeat
  | .removeOutsideReachable => do
    Script.setName "remove other nonterminals"
    Script.editSnapshot keepReachable
  | .cleanUp => do
    Script.setName "done"
    Script.editSnapshot (wipe reachableId)

/-! ### The reduced form -/

/-- Repeat a pass over a growing set until it adds nothing, at most `bound` times. -/
def saturate (pass : SortedSet String → SortedSet String) :
    (bound : Nat) → SortedSet String → SortedSet String
  | 0, set => set
  | bound + 1, set =>
    let next := pass set
    if next.size = set.size then next else saturate pass bound next

/-- The nonterminals with a rule whose right side derives a word of terminals.  Every pass but
the last adds the left side of a rule. -/
def generating (g : Grammar) : SortedSet String :=
  saturate (fun set => g.ruleList.foldl (fun set rule =>
    if generates g set.contains rule.key.right then set.insert rule.key.left else set) set)
    (g.rules.size + 1) .empty

/-- The start symbol and the nonterminals in words derived from it.  Every pass but the last adds
a nonterminal. -/
def reachable (g : Grammar) : SortedSet String :=
  saturate (fun set => g.ruleList.foldl (fun set rule =>
    if set.contains rule.key.left then
      set.insertAll (rule.key.right.symbols.filter g.hasNonterminal)
    else set) set)
    (g.nonterminals.size + 1) (.ofList [g.start])

/-- Is the grammar reduced: no rule replaces a symbol by itself alone, every nonterminal with the
possible exception of the start symbol is generating, and every nonterminal is reachable? -/
def check (g : Grammar) : Bool :=
  let set := generating g
  !g.ruleList.any (·.key.isLoop) &&
    (set.size = g.nonterminalCount ||
      (set.size + 1 = g.nonterminalCount && !set.contains g.start)) &&
    (reachable g).size = g.nonterminalCount

end Chronicle.Reduction
