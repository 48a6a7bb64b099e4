import Chronicle.Procedure.Basic
/-!
The arguments of the command line.

Arguments are read from the left.  An option that needs a value takes the next argument whatever
it looks like; what is no option and no value names the input, and there has to be exactly one of
those.  Of a repeated option the last value counts.
-/

namespace Chronicle.CommandLine

/-- What the arguments ask for. -/
structure Options where
  input : String
  procedure : Procedure
  batchSteps : Option Nat
  /-- Print the final state instead of exploring the run. -/
  json : Bool
deriving DecidableEq, Repr

/-- Why arguments are refused. -/
inductive UsageError
  | noProcedureName
  | unknownProcedure (name : String)
  | noBatchSize
  | invalidBatchSize (value : String)
  | unknownOption (argument : String)
  | secondInput
  | noInput
deriving DecidableEq, Repr

def UsageError.message : UsageError → String
  | noProcedureName => "--procedure needs a name"
  | unknownProcedure name => "Unknown procedure '" ++ name ++ "'"
  | noBatchSize => "--batch needs a number"
  | invalidBatchSize value => "Invalid batch size '" ++ value ++ "'"
  | unknownOption argument => "Unknown option '" ++ argument ++ "'"
  | secondInput => "Only one input file can be given"
  | noInput => "No input file provided"

/-- What has been read of the arguments so far. -/
structure Progress where
  input : Option String := none
  procedure : Procedure := .reduce
  batchSteps : Option Nat := none
  json : Bool := false
deriving DecidableEq, Repr

/-- The largest batch size that can be asked for. -/
def maxBatchSize : Nat := 0xFFFFFFFFFFFFFFFF

/-- Read the remaining arguments. -/
def readArguments (p : Progress) : List String → Except UsageError Progress
  | [] => .ok p
  | argument :: rest =>
    if argument = "--procedure" ∨ argument = "-p" then
      match rest with
      | [] => .error .noProcedureName
      | name :: rest =>
        match Procedure.ofName? name with
        | some procedure => readArguments { p with procedure } rest
        | none => .error (.unknownProcedure name)
    else if argument = "--batch" then
      match rest with
      | [] => .error .noBatchSize
      | value :: rest =>
        match Text.parseDecimal? maxBatchSize value with
        | some steps => readArguments { p with batchSteps := some steps } rest
        | none => .error (.invalidBatchSize value)
    else if argument = "--json" then readArguments { p with json := true } rest
    else if argument.toList.head? = some '-' then .error (.unknownOption argument)
    else if p.input.isSome then .error .secondInput
    else readArguments { p with input := some argument } rest

/-- The options that the arguments spell. -/
def Options.ofArguments (arguments : List String) : Except UsageError Options := do
  let p ← readArguments {} arguments
  match p.input with
  | some input => return ⟨input, p.procedure, p.batchSteps, p.json⟩
  | none => throw .noInput

end Chronicle.CommandLine
