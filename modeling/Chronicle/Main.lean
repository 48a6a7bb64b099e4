import Chronicle.CommandLine.Session
import Chronicle.Explorer.Basic
/-!
The program: a session on the files of the system.

A run that is to be explored is shown as the explorer's first screen.
-/

open Chronicle

/-- What is found in the file system under a name. -/
def fileContent (name : String) : IO CommandLine.FileContent := do
  if name.isEmpty then return .missing
  try
    let bytes ← IO.FS.readBinFile name
    return (String.fromUTF8? bytes).elim .notText .text
  catch
    | .noFileOrDirectory .. => return .missing
    | _ => return .directory

/-- The first screen of the explorer. -/
def firstScreen (run : Run Procedure.Step) : String :=
  let (grid, _) := (Explorer.ofRun run).draw 100 31
  CommandLine.lines (grid.rows.toList.map Screen.Grid.rowText)

def main (arguments : List String) : IO UInt32 := do
  let content ← match CommandLine.Options.ofArguments arguments with
    | .ok options => fileContent options.input
    | .error _ => pure .missing
  match CommandLine.session "chronicle" arguments fun _ => content with
  | .exit code output errors =>
    IO.eprint errors
    IO.print output
    return code.toUInt32
  | .explore errors run =>
    IO.eprint errors
    IO.print (firstScreen run)
    return 0
