import EnemyBehavior.Batch.Json
import EnemyBehavior.CommandLine
import EnemyBehavior.Enemy.Json

/-!
# Running a command

What the program does once the input file has been read: the skillsets go to standard output, the
events to the log, and the exit code says whether every enemy could be summarised.
-/

namespace EnemyBehavior

/-- The effect of running the program. -/
inductive Outcome where
  /-- An overflow broke off the program. -/
  | aborted (cause : Overflow)
  /-- The program came to its end. -/
  | finished (succeeded : Bool) (output : String) (events : List Event)

namespace Outcome

/-- The input could not be used. -/
def failure (event : Event) : Outcome := finished false "" [event]

def usageCode : UInt32 := 2

/-- The exit code: 0 if every enemy was summarised, 1 if the input could not be used or some enemy
failed, and 101 if the program was broken off. -/
def exitCode : Outcome → UInt32
  | aborted _ => 101
  | finished succeeded _ _ => if succeeded then 0 else 1

def output : Outcome → String
  | aborted _ => ""
  | finished _ output _ => output

/-- What happened, as far as it is told. -/
def events : Outcome → List Event
  | aborted _ => []
  | finished _ _ events => events

end Outcome

/-- The version of the program. -/
def versionLine : String := "skillsim 0.1.0\n"

namespace CommandLine

/-- The skillsets as they are written to standard output. -/
def outputText (c : CommandLine) (summaries : List EnemySummary) : String :=
  let v := summariesToJson summaries
  (if c.pretty then v.pretty else v.compact) ++ "\n"

/-- Simulates the enemies that the command asks for. -/
def runOn (c : CommandLine) (path : String) (enemies : List Enemy) : Outcome :=
  let enemies := c.chosen enemies
  match simulateBatch enemies c.levelOptions with
  | .error cause => .aborted cause
  | .ok outcomes =>
    let report := BatchReport.ofOutcomes outcomes
    .finished report.failures.isEmpty (c.outputText report.summaries)
      (.inputLoaded path enemies.length :: batchEvents outcomes)

/-- Runs a command on the content of its input file, or on the reason why there is none. -/
def run (c : CommandLine) (content : Except String String) : Outcome :=
  let path := c.input.getD ""
  match content with
  | .error reason => .failure (.unreadableInput path reason)
  | .ok text =>
    match enemiesOfText text with
    | .error reason => .failure (.malformedInput path (some reason))
    | .ok enemies => c.runOn path enemies

end CommandLine

end EnemyBehavior
