import Chronicle.Archive.Load
import Chronicle.CommandLine.Options
import Chronicle.Json.Printer
import Chronicle.Run.Step
/-!
What the command line does, as a function of its arguments and of the files.

A session writes its messages to the error output, ends with an exit code, and writes the final
state to the standard output if it was asked for.  Without that request a run that could be made
ends in the explorer, which is up to the caller.
-/

namespace Chronicle.CommandLine

/-- What is found under the name of a file. -/
inductive FileContent
  | missing
  | directory
  /-- A file whose bytes spell no text. -/
  | notText
  | text (content : String)
deriving DecidableEq, Repr

/-- How a session ends. -/
inductive Outcome
  | exit (code : Nat) (output errors : String)
  /-- Hand the run over to the explorer. -/
  | explore (errors : String) (run : Run Procedure.Step)

/-- Lines with their ends. -/
def lines (items : List String) : String := String.join (items.map (· ++ "\n"))

/-- The instructions for the program of the given name. -/
def usage (program : String) : List String :=
  ["Usage: " ++ program ++ " <grammar.json> [--procedure <name>] [--batch N] [--json]",
    "",
    "Procedures:"] ++
  Procedure.all.map (fun p => "  " ++ p.name) ++
  ["",
    "Examples:",
    "  " ++ program ++ " grammar.json                         # Reduce and explore the run",
    "  " ++ program ++ " grammar.json --procedure remove-loops --json"]

/-- More steps than any procedure takes on the grammar: loop removal takes three and one for each
loop, reduction ten and for each of its two sets one for each nonterminal. -/
def stepBound (g : Grammar) : Nat := 2 * g.nonterminalCount + g.ruleCount + 20

/-- Run a procedure on a loaded grammar; `written` are the lines before. -/
def runProcedure (options : Options) (g : Grammar) (written : List String) : Outcome :=
  let config : RunConfig := {}
  let config := options.batchSteps.elim config config.withBatchSteps
  let run := options.procedure.start (.ofGrammar g) config
  let (result, run) := (Run.execute Procedure.library (stepBound g)).apply run
  let written := written ++ ["Running " ++ options.procedure.name ++ "..."]
  match result with
  | .ok _ =>
    let written := written ++
      ["Run completed successfully.", "Total steps: " ++ toString run.steps]
    if options.json then
      let output := run.finalSnapshot?.elim "" fun data => data.toJson.prettyText ++ "\n"
      .exit 0 output (lines written)
    else .explore (lines written) run
  | .error e =>
    let written := written ++ ["Step error: " ++ e.message]
    if options.json then .exit 1 "" (lines written)
    else .explore (lines (written ++ ["Entering TUI with the partial run..."])) run

/-- Load a grammar and run a procedure on it. -/
def loadAndRun (options : Options) (text : String) : Outcome :=
  let written := ["Loading " ++ options.input ++ "..."]
  match Grammar.load text with
  | .error e => .exit 1 "" (lines (written ++ ["Grammar error: " ++ e.message]))
  | .ok g =>
    let counts := "Loaded grammar with " ++ toString g.nonterminalCount ++ " nonterminals, " ++
      toString g.terminalCount ++ " terminals and " ++ toString g.ruleCount ++ " rules."
    let note :=
      if options.procedure.check g then
        ["Note: the grammar already satisfies '" ++ options.procedure.name ++ "'."]
      else []
    runProcedure options g (written ++ [counts] ++ note)

/-- A session of the program of the given name. -/
def session (program : String) (arguments : List String) (file : String → FileContent) : Outcome :=
  match Options.ofArguments arguments with
  | .error e => .exit 1 "" (lines (["Error: " ++ e.message, ""] ++ usage program))
  | .ok options =>
    match file options.input with
    | .missing =>
      .exit 1 "" (lines (("Error: File '" ++ options.input ++ "' not found") :: usage program))
    | .directory =>
      .exit 1 "" (lines ["Error: Os \x7b code: 21, kind: IsADirectory, " ++
        "message: \"Is a directory\" \x7d"])
    | .notText =>
      .exit 1 "" (lines ["Error: Error \x7b kind: InvalidData, " ++
        "message: \"stream did not contain valid UTF-8\" \x7d"])
    | .text content => loadAndRun options content

end Chronicle.CommandLine
