import RowGuard.Arguments

/-!
# The command line

Reads the files that a command needs, runs it and prints what it shows. The exit
code is zero if it succeeds, one if it fails and two if the command line cannot
be read.
-/

namespace RowGuard

/-- Why a file could not be read. -/
def unreadableReason : IO.Error → String
  | .noFileOrDirectory .. => "No such file or directory (os error 2)"
  | e => toString e

/-- The text of a file, or the reason why it cannot be read. -/
def readText (name : String) : IO (Except String String) := do
  try return .ok (← IO.FS.readFile name)
  catch e => return .error (unreadableReason e)

/-- Runs a command on the files that it names. -/
def runOnFiles (format : ReportFormat) (command : Command) :
    IO (Except CommandError String) := do
  let texts ← command.fileNames.mapM fun name => return (name, ← readText name)
  let files : Files :=
    fun name => (texts.lookup name).getD (.error "not a file")
  return command.run files format

end RowGuard

/-- Runs the command line. -/
def main (words : List String) : IO UInt32 := do
  match RowGuard.Arguments.read? words with
  | none =>
    IO.eprintln RowGuard.Arguments.usage
    return 2
  | some (format, command) =>
    match ← RowGuard.runOnFiles format command with
    | .ok output =>
      IO.println output
      return 0
    | .error e =>
      IO.eprintln ("Error: " ++ e.message)
      return 1
