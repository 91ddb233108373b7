import BehaviorTree.Simulation.Run

/-!
# The program

Reads files, prints the report of a command, and ends with its exit code.
-/

/-- The text of a file, if it can be read. -/
def BehaviorTree.Simulation.readText (path : String) : IO (Option String) := do
  try
    return some (← IO.FS.readFile path)
  catch _ =>
    return none

open BehaviorTree Simulation in
/-- Runs a command line. -/
def main (args : List String) : IO UInt32 := do
  let report ← perform readText (CommandLine.parse args)
  IO.print report.output
  match report.ending with
  | .success => pure ()
  | .failed failure =>
      IO.eprintln ("Error: " ++ failure.message)
      if failure.cause ≠ "" then
        IO.eprintln ("\nCaused by:\n    " ++ failure.cause)
  | .misused => IO.eprintln helpText
  return report.ending.code.toUInt32
