import Chronicle.Procedure.LoopRemoval
import Chronicle.Procedure.Reduction
/-!
The ready-made procedures, with the tests that tell whether a grammar is in the shape they lead
to.
-/

namespace Chronicle

/-- A procedure to run on a grammar. -/
inductive Procedure
  | removeLoops
  | reduce
deriving DecidableEq, Repr

namespace Procedure

def all : List Procedure := [removeLoops, reduce]

/-- The name by which a procedure is asked for. -/
def name : Procedure → String
  | removeLoops => "remove-loops"
  | reduce => "reduce"

def ofName? (name : String) : Option Procedure := all.find? (·.name == name)

theorem ofName?_name (p : Procedure) : ofName? p.name = some p := by cases p <;> decide

/-- Is the grammar in the shape that the procedure leads to? -/
def check : Procedure → Grammar → Bool
  | removeLoops => LoopRemoval.check
  | reduce => Reduction.check

/-- The steps of all procedures. -/
inductive Step
  | loopRemoval (step : LoopRemoval.Step)
  | reduction (step : Reduction.Step)
deriving DecidableEq, Repr

/-- The step that a procedure begins with. -/
def main : Procedure → Step
  | removeLoops => .loopRemoval .main
  | reduce => .reduction .main

/-- The programs of all steps; `embed` gives their names in the run. -/
def Step.program {P : Type} (embed : Step → P) : Step → Script P Unit
  | loopRemoval step => LoopRemoval.program (fun step => embed (loopRemoval step)) step
  | reduction step => Reduction.program (fun step => embed (reduction step)) step

/-- The programs of a run that consists of a procedure. -/
def library : Library Step := Step.program id

/-- A run of a procedure. -/
def start (p : Procedure) (initial : Snapshot) (config : RunConfig) : Run Step :=
  .ofMain initial p.main config

end Procedure

end Chronicle
