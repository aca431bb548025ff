import EnemyBehavior.Cycle
import EnemyBehavior.Skillset.Clean
import EnemyBehavior.Sweep.EnemyCounts
import EnemyBehavior.Sweep.Hp
import EnemyBehavior.Sweep.Turns

/-!
# Simulating an enemy

`simulate` walks the program of an enemy of a given level through many situations and records
every walk. The phases are, in order:

1. the **opening**: one walk at the start of the battle; if it passes a marker of the opening move
   whose level the enemy has, its actions are that move and its state is kept;
2. the sweep over **turns**, which finds the steady cycle;
3. the sweep over **enemy counts**, if the program asks for them;
4. the sweep over **HP** in the steady state.

Traits take no part in any walk, and markers of the opening move only in the opening.

A `Simulation` holds the records. The skillset of the enemy and the findings about the data are
read off it (`Simulation.skillset`, `Simulation.findings`).
-/

namespace EnemyBehavior

/-! ## Findings -/

/-- What is wrong with the data of an enemy, or could not be simulated. -/
structure Findings where
  /-- Skill types that no rule covers, ascending. -/
  unknownTypes : List UInt32
  /-- The number of walks cut short. -/
  stepCapHits : Nat
  /-- The number of walks that met a node that could not be executed. -/
  faults : Nat
  /-- Cards that the program asks for and that no simulated team has, ascending. -/
  unsimulatedCards : List UInt32
deriving DecidableEq

/-- Nothing was found. -/
def Findings.isClean (f : Findings) : Bool :=
  f.unknownTypes.isEmpty && f.stepCapHits == 0 && f.faults == 0 && f.unsimulatedCards.isEmpty

/-! ## Records of a simulation -/

/-- The records of all phases. -/
structure Simulation where
  /-- The program with traits and markers. -/
  program : Program
  level : UInt32
  /-- The HP percentages that are sampled, descending. -/
  checkpoints : List UInt32
  opening : Probe
  turns : List TurnRecord
  /-- The state after the last turn, from which the later sweeps start. -/
  settled : BattleState
  counts : Option CountSweep
  hp : List HpRecord
deriving DecidableEq

namespace Simulation

/-- The opening walk passed a marker, whether or not the enemy has its level. -/
def passedMarker (m : Simulation) : Bool := m.opening.final.isPreemptive

/-- The enemy has an opening move. -/
def hasOpeningMove (m : Simulation) : Bool := m.passedMarker && m.opening.final.doPreemptive

/-- The actions of the opening move. -/
def preemptives (m : Simulation) : List Action :=
  if m.hasOpeningMove then m.opening.actions else []

/-- What the enemy does, turn by turn. -/
def turnMaps (m : Simulation) : List TurnMap := m.turns.map TurnRecord.map

def cycle? (m : Simulation) : Option Cycle := Cycle.find? m.turnMaps

/-- The groups for the turns before a cycle of one turn. -/
def timedGroups (m : Simulation) : List TimedGroup :=
  (m.cycle?.map (·.timedGroups m.turnMaps)).getD []

/-- The groups for the turns of a longer cycle. -/
def repeatingGroups (m : Simulation) : List TimedGroup :=
  (m.cycle?.map (·.repeatingGroups m.turnMaps)).getD []

/-- The behaviours that the turn groups report, with their HP percentages. -/
def emitted (m : Simulation) : List HpEntry := (m.cycle?.map (·.emitted m.turnMaps)).getD []

def hpGroups (m : Simulation) : List HpGroup := m.hp.flatMap (HpRecord.groups m.emitted)

/-- The skillset as the phases report it. -/
def draft (m : Simulation) : Skillset where
  level := m.level
  baseAbilities := m.program.passives
  preemptives := m.preemptives
  timed := m.timedGroups
  repeating := m.repeatingGroups
  enemyCount := (m.counts.map CountSweep.groups).getD []
  hp := m.hpGroups

/-- The skillset of the enemy. -/
def skillset (m : Simulation) : Skillset := m.draft.clean

/-- All walks, in order. -/
def probes (m : Simulation) : List Probe :=
  m.opening :: m.turns.flatMap TurnRecord.probes
    ++ (m.counts.map CountSweep.probes).getD []
    ++ m.hp.flatMap HpRecord.probes

/-- What is wrong with the data, or could not be simulated. -/
def findings (m : Simulation) : Findings where
  unknownTypes := m.program.unknownTypes
  stepCapHits := m.probes.countP (·.trace.hitStepCap)
  faults := m.probes.countP (·.trace.fault?.isSome)
  unsimulatedCards := m.program.cardCheckpoints.filter (· ∉ (BattleState.start m.level).cards)

end Simulation

/-! ## Running a simulation -/

/-- The state after the opening: that of the opening walk if it was an opening move, and the start
of the battle otherwise. -/
def afterOpening (start : BattleState) (opening : Probe) : BattleState :=
  if opening.final.isPreemptive && opening.final.doPreemptive then opening.final.clearMarks
  else start

namespace Program

/-- The HP percentages that are sampled, descending. Traits do not count. -/
def sampledHp (p : Program) : List UInt32 := p.withoutPassives.hpCheckpoints.reverse

/-- The program as it is walked once the opening is over. -/
def steady (p : Program) : Program := p.withoutPassives.withoutMarkers

/-- Simulates an enemy of a level, with or without the sweep over enemy counts. -/
def simulateWith (p : Program) (countEnemies : Bool) (level : UInt32) :
    Except Overflow Simulation := do
  let checkpoints := p.sampledHp
  let start := BattleState.start level
  let opening := p.withoutPassives.probe start
  -- the opening is over, so its markers are blanked from here on
  let (turns, settled) ← p.steady.sweepTurns checkpoints sweepTurnCount (afterOpening start opening)
  return {
    program := p
    level
    checkpoints
    opening
    turns
    settled
    counts := if countEnemies then some (p.steady.sweepEnemyCounts settled) else none
    hp := p.steady.sweepHp checkpoints settled }

/-- Simulates an enemy of a level. Enemy counts are swept if the program asks for them. -/
def simulate (p : Program) (level : UInt32) : Except Overflow Simulation :=
  p.simulateWith p.hasEnemyCountBranch level

/-- Simulates an enemy at each level at which its behaviour may change. -/
def simulateLevels (p : Program) : Except Overflow (List Simulation) := p.levels.mapM p.simulate

end Program

/-! ## Summaries -/

/-- What is reported of an enemy at one level. -/
structure Summary where
  skillset : Skillset
  findings : Findings
deriving DecidableEq

def Simulation.summary (m : Simulation) : Summary := ⟨m.skillset, m.findings⟩

def Program.summarize (p : Program) (level : UInt32) : Except Overflow Summary :=
  (p.simulate level).map Simulation.summary

end EnemyBehavior
