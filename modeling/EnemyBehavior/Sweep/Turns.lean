import EnemyBehavior.TurnMap
import EnemyBehavior.Walk

/-!
# The sweep over turns

From one state the program is walked once for each HP checkpoint. The walk at the first checkpoint,
full HP, leaves the state with which the next turn starts. So a sweep over turns shows what the
enemy does at each HP percentage, turn by turn, in a battle in which it takes no damage.
-/

namespace EnemyBehavior

/-- The number of turns that a sweep simulates. -/
def sweepTurnCount : Nat := 10

/-- One turn of a sweep: the state it starts from and a walk for each checkpoint. -/
structure TurnRecord where
  start : BattleState
  probes : List Probe
deriving DecidableEq

namespace TurnRecord

/-- What the enemy does on the turn, by HP. -/
def map (r : TurnRecord) : TurnMap := .ofSamples (r.probes.map Probe.entry)

/-- The state that the walk at the first checkpoint leaves. -/
def carried (r : TurnRecord) : BattleState :=
  match r.probes with
  | [] => r.start
  | q :: _ => q.final

end TurnRecord

namespace Program

def turnRecord (p : Program) (checkpoints : List UInt32) (s : BattleState) : TurnRecord where
  start := s
  probes := checkpoints.map fun hp => p.probe { s with hp }

/-- Simulates a number of turns from `s` on, and gives the state after them. -/
def sweepTurns (p : Program) (checkpoints : List UInt32) :
    (turns : Nat) → BattleState → Except Overflow (List TurnRecord × BattleState)
  | 0, s => .ok ([], s)
  | turns + 1, s => do
    let record := p.turnRecord checkpoints s
    let next ← record.carried.endTurn
    let (records, final) ← p.sweepTurns checkpoints turns next
    return (record :: records, final)

end Program

end EnemyBehavior
