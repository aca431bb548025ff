import EnemyBehavior.Record.Decode
import EnemyBehavior.Simulation

/-!
# Enemies

An enemy comes as a list of skill records. Decoded and checked they are its program, which is
simulated at the levels that the options ask for.

An enemy whose records are defective, or whose program has a bad branch, has an `EnemyError`. An
overflow is no property of the enemy; it breaks off whatever is going on.
-/

namespace EnemyBehavior

/-- The raw behaviour of one enemy. -/
structure Enemy where
  enemyId : UInt32
  level : Option UInt32
  records : List SkillRecord

/-- At which levels enemies are simulated. -/
structure LevelOptions where
  /-- The level for all enemies, instead of their own. -/
  levelOverride : Option UInt32
  /-- Every level at which the behaviour may change. -/
  allLevels : Bool
deriving DecidableEq

/-- Why an enemy could not be simulated. -/
inductive EnemyError where
  | decode (error : RecordError)
  | program (error : BranchOutOfBounds)
deriving DecidableEq

/-- The text the failure of an enemy is reported with. -/
def EnemyError.message : EnemyError → String
  | decode e => "decode failed: " ++ e.message
  | program e => "invalid program: " ++ e.message

namespace Enemy

/-- The program of an enemy, or what is wrong with it. -/
def program (e : Enemy) : Except Overflow (Except EnemyError Program) :=
  match decodeBehavior e.records with
  | .error (.overflow cause) => .error cause
  | .error (.defect error) => .ok (.error (.decode error))
  | .ok nodes => .ok ((Program.ofList nodes).mapError .program)

/-- The level an enemy is simulated at: that of the options, its own, or the default. -/
def simulatedLevel (e : Enemy) (options : LevelOptions) : UInt32 :=
  (options.levelOverride.or e.level).getD defaultLevel

/-- Simulates the program of the enemy at the levels asked for. -/
def simulateProgram (e : Enemy) (options : LevelOptions) (p : Program) :
    Except Overflow (List Simulation) :=
  if options.allLevels then p.simulateLevels
  else (p.simulate (e.simulatedLevel options)).map ([·])

def simulate (e : Enemy) (options : LevelOptions) :
    Except Overflow (Except EnemyError (List Simulation)) := do
  match ← e.program with
  | .error error => return .error error
  | .ok p => return .ok (← e.simulateProgram options p)

end Enemy

end EnemyBehavior
