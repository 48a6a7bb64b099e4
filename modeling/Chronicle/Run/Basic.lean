import Chronicle.Run.Config
import Chronicle.Scratch
import Chronicle.Timeline.Basic
/-!
Runs: programs at work on a state, step by step.

A run is plain data.  It holds the timeline, says which step is current and what it is doing, and
keeps what comes up beside the records: the scratch data, the events that a listener hears, and
the notes of the programs.  How it moves on is the subject of `Chronicle.Run.Step`; here is how it
starts and what can be read off it.
-/

namespace Chronicle

/-- What a run is doing. -/
inductive Phase
  /-- Between steps. -/
  | idle
  /-- The program of a step is at work. -/
  | running
  /-- A hook is at work. -/
  | hook
  | finished
  | aborted
deriving DecidableEq, Repr

/-- What driving a run came to. -/
inductive RunState
  /-- There is more to do. -/
  | yielded
  | finished
deriving DecidableEq, Repr

/-- What a listener hears. -/
inductive Event
  | step (label : Label) (name : String)
  | finished
deriving DecidableEq, Repr

/-- The work of a node: one of the run's own programs, or the two jobs that open a run. -/
inductive Job (P : Type)
  | named (program : P)
  /-- The step that records the state the run starts with. -/
  | initialState
  /-- Schedule the initial state, then go on as `main`. -/
  | opening (main : P)
deriving DecidableEq

/-- A run whose programs are called by a `P`. -/
structure Run (P : Type) where
  timeline : Timeline (Job P)
  /-- The step that is at work or comes next; in a finished run the first one to look at. -/
  current : NodeId
  phase : Phase
  scratch : Scratch
  /-- The number of steps that were completed. -/
  steps : Nat
  config : RunConfig
  /-- What the listener has heard so far. -/
  events : List Event
  /-- What programs have noted so far. -/
  notes : List String
  /-- The state that the last step hands on. -/
  final : SnapshotState
deriving DecidableEq

namespace Run

variable {P : Type}

/-- A run about to begin with the given job on the given state. -/
def ofJob (initial : Snapshot) (root : Job P) (config : RunConfig) : Run P where
  timeline := .ofRoot root (.live initial)
  current := Timeline.root
  phase := .idle
  scratch := .empty
  steps := 0
  config := config
  events := []
  notes := []
  final := .pending

/-- A run of `main` whose first step records the initial state. -/
def ofMain (initial : Snapshot) (main : P) (config : RunConfig) : Run P :=
  ofJob initial (.opening main) config

/-- A run whose root is `root` itself. -/
def ofRoot (initial : Snapshot) (root : P) (config : RunConfig) : Run P :=
  ofJob initial (.named root) config

def isFinished (r : Run P) : Bool := r.phase = .finished

def currentNode (r : Run P) : Except EngineError (Node (Job P)) :=
  r.timeline.node r.current

/-- Change a node, if there is one with this id. -/
def modifyNode (r : Run P) (id : NodeId) (f : Node (Job P) → Node (Job P)) :
    Run P :=
  { r with timeline := r.timeline.modify id f }

/-! ### The state at work -/

/-- Where the state is that programs and hooks work on. -/
inductive Workplace
  | node (id : NodeId)
  | final
deriving DecidableEq

/-- The place of the state at work: the current node's while its program runs, and the state
that was handed over while a hook runs. -/
def workplace? (r : Run P) : Option Workplace :=
  match r.phase with
  | .running => some (.node r.current)
  | .hook => if r.final = .pending then some (.node r.current) else some .final
  | _ => none

def stateIn (r : Run P) : Workplace → SnapshotState
  | .node id => ((r.timeline.node? id).map (·.state)).getD .pending
  | .final => r.final

def putState (r : Run P) (place : Workplace) (state : SnapshotState) : Run P :=
  match place with
  | .node id => r.modifyNode id ({ · with state })
  | .final => { r with final := state }

/-! ### Looking at a run -/

/-- The state that a node holds. -/
def snapshotAt (r : Run P) (id : NodeId) : Except EngineError Snapshot := do
  match (← r.timeline.node id).state with
  | .archived data => data.materialize
  | .live snapshot => return snapshot
  | .pending => throw (.invalidData (.noState id))

/-- The record that a node's step left, if the step was archived. -/
def recordAt (r : Run P) (id : NodeId) : Except EngineError (Option SnapshotData) := do
  let n ← r.timeline.node id
  return if n.status = .archived then n.state.archived? else none

/-- The state at the end of the run. -/
def finalSnapshot? (r : Run P) : Option SnapshotData := r.final.archived?

end Run

end Chronicle
