/-!
The settings of a run.
-/

namespace Chronicle

/-- How a run is driven from outside; it does not affect what the steps do. -/
structure RunConfig where
  /-- How many steps to make before the host gets its turn. -/
  batchSteps : Nat := 20
  /-- How long to wait between two batches, in milliseconds. -/
  batchDelay : Nat := 0
deriving DecidableEq, Repr

namespace RunConfig

/-- Set the size of a batch; a batch has at least one step. -/
def withBatchSteps (config : RunConfig) (steps : Nat) : RunConfig :=
  { config with batchSteps := max steps 1 }

def withBatchDelay (config : RunConfig) (milliseconds : Nat) : RunConfig :=
  { config with batchDelay := milliseconds }

end RunConfig

end Chronicle
