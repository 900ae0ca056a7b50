import RecordFilter.Cli.Run
import RecordFilter.Like.Counted

/-!
# The program

The command line on the files of the machine, with markers that are counted from a random number on:
results go to the standard output, reports and errors to the standard error output.
-/

namespace RecordFilter.Cli

/-- The message of a failed file operation. -/
def failureMessage : IO.Error → String
  | .noFileOrDirectory _ number text | .invalidArgument _ number text
  | .permissionDenied _ number text | .resourceExhausted _ number text
  | .inappropriateType _ number text | .noSuchThing _ number text
  | .alreadyExists _ number text | .otherError number text => systemMessage text number.toNat
  | e => toString e

/-- The files of the machine. -/
def machineFiles : Files IO where
  read path := do
    try
      return .ok (← IO.FS.readFile path)
    catch e => return .error (failureMessage e)
  write path text := do
    try
      IO.FS.writeFile path text
      return .ok ()
    catch e => return .error (failureMessage e)

/-- What is said of a document that is not read: the reader gives no reason of its own. -/
def unreadable : String := "it cannot be read"

end RecordFilter.Cli

/-- Runs the command line and gives its exit code. -/
def main (args : List String) : IO UInt32 := do
  let draws := RecordFilter.Like.Draws.counted (← IO.rand 0 (RecordFilter.Like.identifiers - 1))
  let outcome ← RecordFilter.Cli.run RecordFilter.Cli.machineFiles draws args
  IO.print outcome.stdout
  for line in outcome.log do
    IO.eprintln line
  IO.eprint (outcome.stderr RecordFilter.Cli.unreadable)
  if outcome.exit = 2 then
    IO.eprint RecordFilter.Cli.usage
  return UInt32.ofNat outcome.exit
