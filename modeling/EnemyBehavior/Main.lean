import EnemyBehavior.CommandLine.Run

/-!
# The program

Reads the input file that the command line names, and writes skillsets to standard output and the
log to standard error.
-/

namespace EnemyBehavior

/-- The number of a failure. Some arrive with their sign reversed. -/
def failureNumber (code : UInt32) : UInt32 := if code < 2147483648 then code else -code

/-- The text of a failure to open or read a file, with the number of the failure. -/
def ioErrorText : IO.Error → String
  | .noFileOrDirectory _ code _ => s!"No such file or directory (os error {failureNumber code})"
  | .permissionDenied _ code _ => s!"Permission denied (os error {failureNumber code})"
  | .inappropriateType _ code details => details.capitalize ++ s!" (os error {failureNumber code})"
  | e => toString e

/-- The content of a file, or the reason why it cannot be read. -/
def readContent (path : String) : IO (Except String String) := do
  try return .ok (← IO.FS.readFile path)
  catch e => return .error (ioErrorText e)

/-- Runs the command. -/
def runCommand (c : CommandLine) : IO UInt32 := do
  let outcome := c.run (← readContent (c.input.getD ""))
  if let .aborted cause := outcome then IO.eprintln cause.message
  for line in c.logSettings.log outcome.events do
    IO.eprintln line
  IO.print outcome.output
  return outcome.exitCode

/-- How the program is used. -/
def usageText : String :=
  String.join <| [
    "Usage: esdump [OPTIONS] <INPUT>",
    "",
    "Options:",
    "  --level <LEVEL>          Summarize every enemy at this level instead of its own",
    "  --all-levels             Summarize every level the behavior branches on",
    "  --enemy <ID>             Only summarize these enemy ids (repeatable)",
    "  --debug-filter <TOPICS>  Topics of debug lines: interp, summary, decode, batch",
    "  --log-level <LEVEL>      Log level: off, error, warn, info, debug, trace",
    "  --pretty                 Pretty-print the JSON output",
    "  -h, --help               Print help",
    "  -V, --version            Print version"].map (· ++ "\n")

end EnemyBehavior

open EnemyBehavior in
/-- The entry of the program. -/
def main (arguments : List String) : IO UInt32 := do
  match CommandLine.parse arguments with
  | .ok (.summarize c) => runCommand c
  | .ok .version =>
    IO.print versionLine
    return 0
  | .ok .help =>
    IO.print usageText
    return 0
  | .error e =>
    IO.eprintln ("error: " ++ e.message)
    return Outcome.usageCode
