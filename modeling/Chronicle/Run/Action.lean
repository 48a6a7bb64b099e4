import Chronicle.Run.Basic
/-!
Actions: what step programs do, as data.

An action is a chain of requests to the run, each with what to do with its answer.  A request
names one thing that a program may ask for; what the run answers is the subject of
`Chronicle.Run.Step`, so a program is the same value whoever answers it.
-/

namespace Chronicle

/-- What a program can ask of its run, by the type of the answer. -/
inductive Request (P : Type) : Type → Type 1
  /-- Add a step below the current one. -/
  | schedule (job : Job P) : Request P (Except EngineError NodeId)
  /-- Have a job done on the state that the current step hands over. -/
  | scheduleHook (job : Job P) : Request P (Except EngineError Unit)
  /-- Have the current step followed by another one like it. -/
  | requestRepeat : Request P (Except EngineError Unit)
  | setName (name : String) : Request P (Except EngineError Unit)
  /-- Look at the state at work. -/
  | readSnapshot : Request P (Except EngineError Snapshot)
  /-- Edit the state at work. -/
  | editSnapshot {α : Type} (edit : Edit Snapshot α) : Request P (Except EngineError α)
  /-- Edit the state at work together with the scratch data. -/
  | editParts {α : Type} (edit : Edit (Snapshot × Scratch) α) : Request P (Except EngineError α)
  /-- Change the scratch data, which is always at hand. -/
  | editScratch {α : Type} (change : Scratch → α × Scratch) : Request P α
  /-- Look at the whole run. -/
  | inspect : Request P (Run P)
  /-- Leave a note. -/
  | note (text : String) : Request P Unit
  | start : Request P Unit
  | step : Request P (Except EngineError Bool)
  | resume : Request P (Except EngineError RunState)
  /-- Resume until the run is finished, at most `rounds` times. -/
  | execute (rounds : Nat) : Request P (Except EngineError RunState)

/-- A chain of requests that ends with an `α`. -/
inductive Action (P α : Type) : Type 1
  | done (a : α)
  | ask {β : Type} (request : Request P β) (next : β → Action P α)

namespace Action

variable {P σ α β : Type}

/-- Go on with what an action ends with. -/
def bind (x : Action P α) (f : α → Action P β) : Action P β :=
  match x with
  | done a => f a
  | ask request next => ask request fun b => (next b).bind f

instance : Monad (Action P) where
  pure := done
  bind := bind

/-- A single request. -/
def request (r : Request P α) : Action P α := ask r done

/-- Perform an action in a state `σ`, every request being answered by `answer`. -/
def perform (answer : (β : Type) → Request P β → σ → β × σ) : Action P α → σ → α × σ
  | done a, s => (a, s)
  | ask r next, s =>
    let (b, s) := answer _ r s
    (next b).perform answer s

@[simp] theorem perform_done (answer : (β : Type) → Request P β → σ → β × σ) (a : α) (s : σ) :
    (done a : Action P α).perform answer s = (a, s) := rfl

theorem perform_bind (answer : (β : Type) → Request P β → σ → β × σ) (x : Action P α)
    (f : α → Action P β) (s : σ) :
    (x.bind f).perform answer s =
      (f (x.perform answer s).1).perform answer (x.perform answer s).2 := by
  induction x generalizing s with
  | done a => rfl
  | ask r next ih => exact ih _ _

end Action

/-- An action that may fail. -/
abbrev Script (P : Type) := ExceptT EngineError (Action P)

/-- What a step or a hook does. -/
abbrev Program (P : Type) := Script P Unit

/-- The programs of a run by their names. -/
abbrev Library (P : Type) := P → Program P

namespace Script

variable {P α : Type}

/-- Fail if the answer to a request is a failure. -/
def demand (r : Request P (Except EngineError α)) : Script P α := ExceptT.mk (.request r)

/-- Ask for something that cannot fail. -/
def ask (r : Request P α) : Script P α := ExceptT.lift (.request r)

/-- Add a step below the current one. -/
def schedule (program : P) : Script P Unit := discard (demand (.schedule (.named program)))

def requestRepeat : Script P Unit := demand .requestRepeat

def setName (name : String) : Script P Unit := demand (.setName name)

def readSnapshot : Script P Snapshot := demand .readSnapshot

def editSnapshot (edit : Edit Snapshot α) : Script P α := demand (.editSnapshot edit)

end Script

/-- The name of the step that records the initial state. -/
def initialStepName : String := "this is the initial state of the algorithm"

/-- The program of a job. -/
def Job.program {P : Type} (library : Library P) : Job P → Script P Unit
  | named program => library program
  | initialState => Script.setName initialStepName
  | opening main => do
    let _ ← Script.demand (.schedule .initialState)
    library main

end Chronicle
