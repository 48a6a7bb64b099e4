import Chronicle.Word
import Chronicle.Structure.Kind
/-!
The ways in which an operation of the engine can fail.

Each constructor of `EngineError` is one cause; `EngineError.message` is the only place that
words them.  None of them is worth a second try: the engine computes on values, so the same call
on the same state fails again.
-/

namespace Chronicle

/-- A node of a timeline, by its place in the order of creation. -/
structure NodeId where
  index : Nat
deriving DecidableEq, Repr, Inhabited

def NodeId.text (id : NodeId) : String := "#" ++ toString id.index

/-- What still uses a symbol that was removed. -/
inductive SymbolUse
  | start
  | rule (key : RuleKey)
deriving DecidableEq, Repr

def SymbolUse.text : SymbolUse → String
  | start => "the start symbol"
  | rule key => "rule " ++ key.text

/-- Why archived data or a recorded state cannot be worked on. -/
inductive DataFault
  /-- A symbol set lists a symbol that the grammar does not have. -/
  | unknownMember (set symbol : String)
  /-- A node is to run or to be opened, but holds no state. -/
  | noState (node : NodeId)
  /-- A complaint of a step program, in its own words. -/
  | complaint (message : String)
deriving DecidableEq, Repr

def DataFault.message : DataFault → String
  | unknownMember set symbol =>
    "symbol set '" ++ set ++ "' contains unknown symbol '" ++ symbol ++ "'"
  | noState node => "step " ++ node.text ++ " has no state to work on"
  | complaint message => message

/-- The operations that are open to a program only while its step runs. -/
inductive StepOperation
  | schedule
  | scheduleHook
  | requestRepeat
  | setName
  | snapshot
  | snapshotMut
  | partsMut
deriving DecidableEq, Repr

def StepOperation.text : StepOperation → String
  | schedule => "schedule"
  | scheduleHook => "schedule_hook"
  | requestRepeat => "request_repeat"
  | setName => "set_name"
  | snapshot => "snapshot"
  | snapshotMut => "snapshot_mut"
  | partsMut => "parts_mut"

/-- A failed operation of the engine. -/
inductive EngineError
  /-- An operation for running steps was called when no step runs. -/
  | notStepping (operation : StepOperation)
  | unknownSymbol (name : String)
  /-- A name that breaks the naming rule, or the rule for the kind that was asked for. -/
  | invalidSymbolName (name : String) (expected : Option SymbolKind)
  /-- A symbol of the other kind stands where `expected` is asked for. -/
  | symbolKind (name : String) (expected : SymbolKind)
  | unknownRule (key : RuleKey)
  /-- A removal takes a symbol away that is still in use. -/
  | danglingSymbol (symbol : String) (usedBy : SymbolUse)
  | unknownStructure (id : String)
  | structureKind (id : String) (expected found : StructureKind)
  | duplicateRoot
  | unknownNode (id : NodeId)
  | stepInProgress
  | runAborted
  | invalidData (fault : DataFault)
deriving DecidableEq, Repr

def EngineError.message : EngineError → String
  | notStepping operation =>
    "'" ++ operation.text ++ "' can only be called while a step is executing"
  | unknownSymbol name => "Unknown symbol '" ++ name ++ "'"
  | invalidSymbolName name expected =>
    "'" ++ name ++ "' is not a valid " ++ (expected.elim "symbol" SymbolKind.text) ++ " name"
  | symbolKind name expected => "Symbol '" ++ name ++ "' is not a " ++ expected.text
  | unknownRule key => "Unknown rule " ++ key.text
  | danglingSymbol symbol usedBy =>
    "Symbol '" ++ symbol ++ "' was removed but is still used by " ++ usedBy.text
  | unknownStructure id => "Unknown structure '" ++ id ++ "'"
  | structureKind id expected found =>
    "Structure '" ++ id ++ "' is a " ++ found.text ++ ", not a " ++ expected.text
  | duplicateRoot => "The root step cannot be duplicated"
  | unknownNode id => "Unknown timeline node " ++ id.text
  | stepInProgress => "A step is already executing"
  | runAborted => "The run was aborted by a failing step"
  | invalidData fault => "Invalid archived data: " ++ fault.message

end Chronicle
