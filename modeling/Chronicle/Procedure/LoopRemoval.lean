import Chronicle.Run.Action
/-!
Loop removal: delete the rules that replace a symbol by itself alone, one per step.

The main step lists the loops in a queue and opens the set of their left sides.  If there are
loops, one removing step is scheduled, which repeats itself until the queue is empty.
-/

namespace Chronicle.LoopRemoval

/-- The steps of the procedure. -/
inductive Step
  | main
  | removeOne
  | done
deriving DecidableEq, Repr

/-- The key of the loops that are still to be removed. -/
def queueKey : String := "remove_loops/queue"

/-- The id of the set of nonterminals that had a loop. -/
def hadLoopsId : String := "had_loops"

def hadLoopsName : String := "Had loops"

/-- Has the grammar no loops? -/
def check (g : Grammar) : Bool := !g.ruleList.any (·.key.isLoop)

/-- The loops of a grammar in the order of its rules. -/
def loops (g : Grammar) : List RuleKey := (g.ruleList.map (·.key)).filter RuleKey.isLoop

/-- Open the set of nonterminals that had a loop, and put an item into it if one is given. -/
def recordLoop (item : Option String) : Edit Snapshot Unit := Snapshot.editStructures do
  let _ ← Bag.openContent .symbolSet hadLoopsId hadLoopsName
  if let some item := item then
    let _ ← Bag.editContent .symbolSet hadLoopsId fun set => SymbolSet.add set item

/-- Take the next loop off the queue and propose its removal; answers the loop, if there was one,
and whether others follow. -/
def removeNext : Edit (Snapshot × Scratch) (Option (RuleKey × Bool)) := do
  let (snapshot, scratch) ← get
  let (queue, scratch) := scratch.getOrInsert .rules queueKey []
  match (queue : List RuleKey) with
  | [] =>
    set (snapshot, scratch)
    return none
  | key :: rest =>
    set (snapshot, scratch.insert .rules queueKey rest)
    Edit.on (·.1) (fun s snapshot => (snapshot, s.2)) do
      recordLoop (some key.left)
      Snapshot.editGrammar (Grammar.removeRule key)
    return some (key, !rest.isEmpty)

/-- The programs of the steps; `embed` gives their names in the run. -/
def program {P : Type} (embed : Step → P) : Step → Script P Unit
  | .main => do
    Script.setName "remove loops"
    Script.editSnapshot (recordLoop none)
    let queue := loops (← Script.readSnapshot).grammar
    Script.ask (.editScratch fun scratch => ((), scratch.insert .rules queueKey queue))
    if !queue.isEmpty then Script.schedule (embed .removeOne)
    Script.schedule (embed .done)
  | .removeOne => do
    if let some (key, more) ← Script.demand (.editParts removeNext) then
      Script.setName ("remove the production " ++ key.text)
      if more then Script.requestRepeat
  | .done => Script.setName "done"

end Chronicle.LoopRemoval
