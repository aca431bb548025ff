import EnemyBehavior.Ascending
import EnemyBehavior.Node
import EnemyBehavior.Words

/-!
# Battle states

What a behaviour can read and write while it is walked: the registers of the enemy and the
situation it fights in.

A walk changes only the registers (`flags`, `oneTimeFlags`, `counter`, `countdown`) and the two
preemptive marks. The situation (`turn`, `hp`, `level`, `enemies`, `cards`) is set from outside;
`endTurn` moves to the next turn.
-/

namespace EnemyBehavior

/-- The HP percentage at the start of a battle. -/
def fullHp : UInt32 := 100

/-- The number of enemies that stands for "none has been defeated yet". -/
def fullEnemyCount : UInt32 := 999

/-- The level an enemy has unless it states one. -/
def defaultLevel : UInt32 := 1

/-- The registers of an enemy and the situation of the battle. -/
structure BattleState where
  /-- The current turn, counted from 1. -/
  turn : UInt32
  /-- The last walk passed a marker of the opening move. -/
  isPreemptive : Bool
  /-- The level of the enemy satisfied that marker. -/
  doPreemptive : Bool
  flags : UInt64
  /-- The bits that one-time actions have used up. -/
  oneTimeFlags : UInt64
  counter : Int64
  /-- The counter goes down at the end of the turn. -/
  countdown : Bool
  /-- HP in percent. -/
  hp : UInt32
  level : UInt32
  /-- How many enemies remain. -/
  enemies : UInt32
  /-- The cards on the player's team, ascending. -/
  cards : List UInt32
deriving DecidableEq

namespace BattleState

/-- The start of a battle against an enemy of the given level. -/
def start (level : UInt32) : BattleState where
  turn := 1
  isPreemptive := false
  doPreemptive := false
  flags := 0
  oneTimeFlags := 0
  counter := 0
  countdown := false
  hp := fullHp
  level := level
  enemies := fullEnemyCount
  cards := []

/-- Forgets the markers that an earlier walk passed. -/
def clearMarks (s : BattleState) : BattleState :=
  { s with isPreemptive := false, doPreemptive := false }

/-! ## The end of a turn -/

/-- A running countdown lowers a positive counter by one, and stops once the counter is not
positive. -/
def tickCountdown (s : BattleState) : BattleState :=
  if s.countdown then
    -- a positive counter has a predecessor, so the subtraction is exact
    if 0 < s.counter then { s with counter := s.counter - 1 } else { s with countdown := false }
  else s

/-- Moves to the next turn. The last turn a word can count has none. -/
def endTurn (s : BattleState) : Except Overflow BattleState :=
  if s.turn.toNat + 1 < UInt32.size then .ok { s.tickCountdown with turn := s.turn + 1 }
  else .error .addition

/-! ## Registers -/

def applyFlagOp (s : BattleState) (op : FlagOp) (mask : UInt64) : BattleState :=
  match op with
  | .set | .or => { s with flags := s.flags ||| mask }
  | .unset => { s with flags := s.flags &&& ~~~mask }
  | .xor => { s with flags := s.flags ^^^ mask }

/-- Applies an operation to the counter, which stays at the end of its range it reaches. -/
def applyCounterOp (s : BattleState) (op : CounterOp) (value : Int64) : BattleState :=
  match op with
  | .assign => { s with counter := value }
  | .add => { s with counter := saturatingAdd s.counter value }
  | .subtract => { s with counter := saturatingSub s.counter value }

def hasFlags (s : BattleState) (mask : UInt64) : Bool := s.flags &&& mask == mask

def hasAnyCard (s : BattleState) (ids : List UInt32) : Bool := ids.any (· ∈ s.cards)

end BattleState

end EnemyBehavior
