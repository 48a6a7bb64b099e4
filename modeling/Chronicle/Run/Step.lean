import Chronicle.Run.Action
/-!
Running the steps of a timeline, one after the other.

A step begins by giving its node a label and a live state.  Then its program is performed, a copy
of the node is put behind it if the program asked for a repetition, the state as the step left it
becomes the node's record, and the archived state is handed on: to the next node in chronological
order, or to the end of the run.  A hook of the step is then performed on the state handed on.  A
step that fails anywhere in this aborts the run, which keeps what was done so far.

Programs and hooks cannot drive the run that drives them, so inside them `step`, `resume` and
`execute` are refused.
-/

namespace Chronicle

namespace Run

variable {P α : Type}

/-! ### Answering requests -/

/-- How the requests that drive a run are answered. -/
structure Drive (P : Type) where
  step : Edit (Run P) Bool
  resume : Edit (Run P) RunState
  execute : (rounds : Nat) → Edit (Run P) RunState

/-- Nothing drives a run from inside one of its steps. -/
def Drive.refused : Drive P where
  step := throw .stepInProgress
  resume := throw .stepInProgress
  execute _ := throw .stepInProgress

/-- Fails unless a program is at work. -/
def requireRunning (run : Run P) (operation : StepOperation) : Except EngineError Unit :=
  if run.phase = .running then .ok () else .error (.notStepping operation)

/-- The state at work and its place, for the given operation. -/
def stateAtWork (run : Run P) (operation : StepOperation) :
    Except EngineError (Workplace × Snapshot) :=
  match run.workplace? with
  | none => .error (.notStepping operation)
  | some place =>
    match (run.stateIn place).live? with
    | some snapshot => .ok (place, snapshot)
    | none => .error (.invalidData (.noState run.current))

def schedule (job : Job P) : Edit (Run P) NodeId := .atomic fun run => do
  run.requireRunning .schedule
  let (child, timeline) ← run.timeline.adopt run.current job
  return (child, { run with timeline })

/-- Change the current node on behalf of its program. -/
def changeCurrent (operation : StepOperation) (f : Node (Job P) → Node (Job P)) :
    Edit (Run P) Unit := .atomic fun run => do
  run.requireRunning operation
  let _ ← run.currentNode
  return ((), run.modifyNode run.current f)

/-- Edit the state at work. -/
def editSnapshot (edit : Edit Snapshot α) : Edit (Run P) α := ExceptT.mk fun run =>
  match run.stateAtWork .snapshotMut with
  | .error e => (.error e, run)
  | .ok (place, snapshot) =>
    let (result, snapshot) := edit.apply snapshot
    (result, run.putState place (.live snapshot))

/-- Edit the state at work together with the scratch data. -/
def editParts (edit : Edit (Snapshot × Scratch) α) : Edit (Run P) α := ExceptT.mk fun run =>
  match run.stateAtWork .partsMut with
  | .error e => (.error e, run)
  | .ok (place, snapshot) =>
    let (result, snapshot, scratch) := edit.apply (snapshot, run.scratch)
    (result, { run.putState place (.live snapshot) with scratch })

/-- Make the root current in a run that has not begun. -/
def start (run : Run P) : Run P :=
  if run.phase = .idle ∧ run.steps = 0 then { run with current := Timeline.root } else run

/-- The answer to a request and the run after it. -/
def answer (drive : Drive P) (β : Type) (request : Request P β) (run : Run P) : β × Run P :=
  match request with
  | .schedule job => (schedule job).apply run
  | .scheduleHook job => (changeCurrent .scheduleHook ({ · with hook := some job })).apply run
  | .requestRepeat => (changeCurrent .requestRepeat ({ · with repeats := true })).apply run
  | .setName name => (changeCurrent .setName ({ · with name })).apply run
  | .readSnapshot => ((run.stateAtWork .snapshot).map (·.2), run)
  | .editSnapshot edit => (editSnapshot edit).apply run
  | .editParts edit => (editParts edit).apply run
  | .editScratch change =>
    let (a, scratch) := change run.scratch
    (a, { run with scratch })
  | .inspect => (run, run)
  | .note text => ((), { run with notes := run.notes ++ [text] })
  | .start => ((), run.start)
  | .step => drive.step.apply run
  | .resume => drive.resume.apply run
  | .execute rounds => (drive.execute rounds).apply run

/-- Perform a script as part of the run. -/
def performScript (drive : Drive P) (script : Script P α) : Edit (Run P) α :=
  ExceptT.mk (script.run.perform (answer drive))

/-! ### One step -/

/-- Materialize a state where it is. -/
def materializeIn (place : Workplace) : Edit (Run P) (Option Snapshot) :=
  .atomic fun run => do
    let (snapshot, state) ← (run.stateIn place).materialize
    return (snapshot, run.putState place state)

def setPhase (phase : Phase) : Edit (Run P) Unit := modify ({ · with phase })

/-- Give the current node its label and a live state, and let its program begin; answers the
label. -/
def openStep : Edit (Run P) Label := do
  let id := (← get).current
  let label ← Edit.atomic fun run => do
    let (label, timeline) ← run.timeline.assignLabel id
    return (label, { run with timeline })
  if (← materializeIn (.node id)).isNone then
    throw (.invalidData (.noState id))
  modify (·.modifyNode id ({ · with status := .running }))
  setPhase .running
  return label

/-- Perform the program of the current node. -/
def performCurrent (library : Library P) : Edit (Run P) Unit := do
  let job := (← Edit.ofExcept (← get).currentNode).program
  performScript .refused (job.program library)

/-- Take the live state out of a node that has run. -/
def takeState (id : NodeId) : Edit (Run P) Snapshot := do
  let state := (← get).stateIn (.node id)
  modify (·.putState (.node id) .pending)
  match state with
  | .live snapshot => return snapshot
  | _ => throw (.invalidData (.noState id))

/-- Put a copy of a node right behind it. -/
def duplicateNode (id : NodeId) : Edit (Run P) Unit := .atomic fun run => do
  let (_, timeline) ← run.timeline.duplicate id
  return ((), { run with timeline })

/-- Make a state the record of a node, and hand the archived state on; answers whether another
step follows. -/
def recordAndHandOver (id : NodeId) (live : Snapshot) : Edit (Run P) Bool := do
  modify (·.modifyNode id ({ · with state := .archived live.toData, status := .archived }))
  let handover ← Edit.ofExcept live.archive
  match (← get).timeline.after id with
  | some next =>
    modify fun run => { run.putState (.node next) (.archived handover) with current := next }
    return true
  | none =>
    modify (·.putState .final (.archived handover))
    return false

/-- Close the step of a node whose program is done; answers the node as the program left it, and
whether another step follows. -/
def closeStep (id : NodeId) : Edit (Run P) (Node (Job P) × Bool) := do
  setPhase .idle
  let n ← Edit.ofExcept ((← get).timeline.node id)
  let live ← takeState id
  if n.repeats then duplicateNode id
  let more ← recordAndHandOver id live
  return (n, more)

/-- Make the state that was handed on live, and let the hook begin. -/
def openHook : Edit (Run P) Unit := do
  setPhase .hook
  if let some place := (← get).workplace? then
    let _ ← materializeIn place

/-- Put the final state back into its archived form, since no step will do so. -/
def closeHook : Edit (Run P) Unit := do
  setPhase .idle
  modify fun run =>
    match run.final with
    | .live snapshot => { run with final := .archived snapshot.toData }
    | _ => run

/-- Perform a hook on the state that was handed on. -/
def runHook (library : Library P) (hook : Job P) : Edit (Run P) Unit := do
  openHook
  performScript .refused (hook.program library)
  closeHook

/-- Close a run whose last step is done. -/
def finish (run : Run P) : Run P :=
  { run with
    phase := .finished
    current := ((run.timeline.node? Timeline.root).bind (·.firstChild)).getD Timeline.root
    events := run.events ++ [.finished] }

/-- Count a step that is done, and tell the listener of it. -/
def concludeStep (label : Label) (name : String) (more : Bool) : Edit (Run P) Unit := do
  modify fun run =>
    { run with steps := run.steps + 1, events := run.events ++ [.step label name] }
  if !more then modify finish

/-- Run the current step; answers whether another one follows. -/
def runCurrent (library : Library P) : Edit (Run P) Bool := do
  let id := (← get).current
  let label ← openStep
  performCurrent library
  let (n, more) ← closeStep id
  if let some hook := n.hook then runHook library hook
  concludeStep label n.name more
  return more

/-! ### Driving a run from outside -/

/-- Run one step; answers whether another one follows. -/
def step (library : Library P) : Edit (Run P) Bool := ExceptT.mk fun run =>
  match run.phase with
  | .finished => (.ok false, run)
  | .aborted => (.error .runAborted, run)
  | .running | .hook => (.error .stepInProgress, run)
  | .idle =>
    match (runCurrent library).apply run with
    | (.error e, run) => (.error e, { run with phase := .aborted })
    | done => done

/-- Run at most `count` steps. -/
def runSteps (library : Library P) : (count : Nat) → Edit (Run P) RunState
  | 0 => return .yielded
  | count + 1 => do
    if ← step library then runSteps library count else return .finished

/-- Run one batch of steps. -/
def resume (library : Library P) : Edit (Run P) RunState := do
  runSteps library (max (← get).config.batchSteps 1)

/-- Run batches until the run is finished, at most `rounds` of them. -/
def runBatches (library : Library P) : (rounds : Nat) → Edit (Run P) RunState
  | 0 => return .yielded
  | rounds + 1 => do
    match ← resume library with
    | .finished => return .finished
    | .yielded => runBatches library rounds

/-- Run from the start or from where the run was left, at most `rounds` batches. -/
def execute (library : Library P) (rounds : Nat) : Edit (Run P) RunState := do
  if (← get).phase = .running ∨ (← get).phase = .hook then
    throw .stepInProgress
  modify start
  runBatches library rounds

/-- From outside a run is driven by its own operations. -/
def Drive.outside (library : Library P) : Drive P where
  step := Run.step library
  resume := Run.resume library
  execute := Run.execute library

/-- Perform a script from outside the run. -/
def command (library : Library P) (script : Script P α) : Edit (Run P) α :=
  performScript (.outside library) script

end Run

end Chronicle
