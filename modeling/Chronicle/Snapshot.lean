import Chronicle.Grammar.Edit
import Chronicle.Structure.Bag
/-!
Snapshots: a grammar with its structures, live or archived.

Archiving a live snapshot makes its proposals true and turns it into plain data; materializing
the data gives a live snapshot that the next step can work on.  `SnapshotState` is the place that
a timeline node has for its state.
-/

namespace Chronicle

/-- A state that steps work on. -/
structure Snapshot where
  grammar : Grammar
  structures : Bag
deriving DecidableEq

/-- A state as plain data. -/
structure SnapshotData where
  grammar : GrammarData
  structures : SortedMap String StructureData
deriving DecidableEq

namespace Snapshot

/-- A grammar without structures. -/
def ofGrammar (g : Grammar) : Snapshot := ⟨g, .empty⟩

def toData (s : Snapshot) : SnapshotData := ⟨s.grammar.toData, s.structures.toData⟩

/-- Perform an edit on the grammar. -/
def editGrammar {α : Type} (e : Edit Grammar α) : Edit Snapshot α :=
  e.on (·.grammar) fun s grammar => { s with grammar }

/-- Perform an edit on the structures. -/
def editStructures {α : Type} (e : Edit Bag α) : Edit Snapshot α :=
  e.on (·.structures) fun s structures => { s with structures }

/-- Make all proposals true; the structures are left alone when the grammar refuses. -/
def finalize : Edit Snapshot Unit := do
  editGrammar Grammar.finalize
  editStructures (modify Bag.settled)

/-- The data that a finished step hands on. -/
def archive (s : Snapshot) : Except EngineError SnapshotData :=
  match finalize.apply s with
  | (.ok _, settled) => .ok settled.toData
  | (.error e, _) => .error e

end Snapshot

/-- The live snapshot that the data describes. -/
def SnapshotData.materialize (data : SnapshotData) : Except EngineError Snapshot := do
  let grammar ← Grammar.ofData data.grammar
  return ⟨grammar, ← Bag.ofData grammar data.structures⟩

/-- What a place for a state holds. -/
inductive SnapshotState
  /-- Nothing yet, or the state is out in someone's hands. -/
  | pending
  | live (snapshot : Snapshot)
  | archived (data : SnapshotData)
deriving DecidableEq

namespace SnapshotState

/-- Turn archived data into a live snapshot in place; answers the snapshot, or `none` if there is
nothing to work on. -/
def materialize (state : SnapshotState) : Except EngineError (Option Snapshot × SnapshotState) :=
  match state with
  | pending => .ok (none, pending)
  | live snapshot => .ok (some snapshot, live snapshot)
  | archived data => do
    let snapshot ← data.materialize
    return (some snapshot, live snapshot)

def isLive : SnapshotState → Bool
  | live _ => true
  | _ => false

def archived? : SnapshotState → Option SnapshotData
  | archived data => some data
  | _ => none

def live? : SnapshotState → Option Snapshot
  | live snapshot => some snapshot
  | _ => none

end SnapshotState

end Chronicle
