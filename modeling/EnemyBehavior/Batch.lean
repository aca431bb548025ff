import EnemyBehavior.Enemy

/-!
# Batches

Many enemies are simulated one after another. An enemy that fails is recorded and does not keep the
others from being simulated. The report holds the skillsets and the failures in the order of the
enemies, and counts the findings about the data, with a few enemies as examples for each.
-/

namespace EnemyBehavior

/-! ## Diagnostics -/

/-- The number of enemies that are named as examples. -/
def maxExamples : Nat := 5

/-- How many units have a finding, and the first enemies among them. -/
structure Tally where
  units : Nat
  /-- Numbers of enemies, each once. -/
  examples : List UInt32
deriving DecidableEq

namespace Tally

def empty : Tally := ⟨0, []⟩

/-- Counts a unit of an enemy. -/
def note (t : Tally) (enemyId : UInt32) : Tally where
  units := t.units + 1
  examples :=
    if t.examples.length < maxExamples ∧ enemyId ∉ t.examples then t.examples ++ [enemyId]
    else t.examples

/-- Counts a unit of an enemy if it has the finding. -/
def noteIf (t : Tally) (found : Bool) (enemyId : UInt32) : Tally :=
  if found then t.note enemyId else t

end Tally

/-- The findings of a batch. A unit is an enemy at one level. -/
structure Diagnostics where
  unknownTypes : Tally
  stepCap : Tally
  faults : Tally
  cardBranches : Tally
deriving DecidableEq

namespace Diagnostics

def empty : Diagnostics := ⟨.empty, .empty, .empty, .empty⟩

/-- Takes up the findings of one unit. -/
def record (d : Diagnostics) (enemyId : UInt32) (f : Findings) : Diagnostics where
  unknownTypes := d.unknownTypes.noteIf (!f.unknownTypes.isEmpty) enemyId
  stepCap := d.stepCap.noteIf (0 < f.stepCapHits) enemyId
  faults := d.faults.noteIf (0 < f.faults) enemyId
  cardBranches := d.cardBranches.noteIf (!f.unsimulatedCards.isEmpty) enemyId

/-- No unit has a finding. -/
def isClean (d : Diagnostics) : Bool :=
  d.unknownTypes.units == 0 && d.stepCap.units == 0 && d.faults.units == 0
    && d.cardBranches.units == 0

/-- The diagnostics of several units. -/
def ofUnits (units : List (UInt32 × Findings)) : Diagnostics :=
  units.foldl (fun d u => d.record u.1 u.2) empty

end Diagnostics

/-! ## Outcomes -/

/-- An enemy and what simulating it gave. -/
structure EnemyOutcome where
  enemy : Enemy
  result : Except EnemyError (List Simulation)

namespace EnemyOutcome

def simulations (o : EnemyOutcome) : List Simulation := o.result.toOption.getD []

end EnemyOutcome

/-- Simulates each enemy of a batch. -/
def simulateBatch (enemies : List Enemy) (options : LevelOptions) :
    Except Overflow (List EnemyOutcome) :=
  enemies.mapM fun enemy => (enemy.simulate options).map (⟨enemy, ·⟩)

/-! ## Reports -/

/-- The skillset of an enemy. -/
structure EnemySummary where
  enemyId : UInt32
  skillset : Skillset
deriving DecidableEq

/-- The failure of an enemy. -/
structure EnemyFailure where
  enemyId : UInt32
  error : EnemyError
deriving DecidableEq

/-- What is reported of a batch. -/
structure BatchReport where
  summaries : List EnemySummary
  failures : List EnemyFailure
  diagnostics : Diagnostics
deriving DecidableEq

namespace EnemyOutcome

/-- The skillsets of the enemy, one for each level. -/
def summaries (o : EnemyOutcome) : List EnemySummary :=
  o.simulations.map fun m => ⟨o.enemy.enemyId, m.skillset⟩

/-- The failure of the enemy, if it failed. -/
def failure? (o : EnemyOutcome) : Option EnemyFailure :=
  match o.result with
  | .error error => some ⟨o.enemy.enemyId, error⟩
  | .ok _ => none

/-- The findings on the enemy, one for each level. -/
def units (o : EnemyOutcome) : List (UInt32 × Findings) :=
  o.simulations.map fun m => (o.enemy.enemyId, m.findings)

end EnemyOutcome

/-- The report on the outcomes of a batch. -/
def BatchReport.ofOutcomes (outcomes : List EnemyOutcome) : BatchReport where
  summaries := outcomes.flatMap EnemyOutcome.summaries
  failures := outcomes.filterMap EnemyOutcome.failure?
  diagnostics := .ofUnits (outcomes.flatMap EnemyOutcome.units)

/-- Simulates and reports a batch. -/
def summarizeBatch (enemies : List Enemy) (options : LevelOptions) : Except Overflow BatchReport :=
  (simulateBatch enemies options).map .ofOutcomes

end EnemyBehavior
