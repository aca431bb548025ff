import EnemyBehavior.Action

/-!
# Behaviour nodes

The behaviour of an enemy is a list of nodes that is walked once per turn. A node uses an action,
changes a register, branches to another node, or ends the walk. Positions are counted from 1, and
the target of a branch is such a position.
-/

namespace EnemyBehavior

/-! ## Operators -/

/-- The comparisons that branches make. -/
inductive Comparison where
  | less | equal | greaterOrEqual
deriving DecidableEq

/-- Whether `a` stands in the relation to `b`. -/
def Comparison.test {α : Type} [LT α] [DecidableLT α] [LE α] [DecidableLE α] [DecidableEq α] :
    Comparison → α → α → Bool
  | less, a, b => decide (a < b)
  | equal, a, b => decide (a = b)
  | greaterOrEqual, a, b => decide (b ≤ a)

/-- The operations on the flag register. -/
inductive FlagOp where
  | set | or | unset | xor
deriving DecidableEq

/-- The operations on the counter register. -/
inductive CounterOp where
  | assign | add | subtract
deriving DecidableEq

/-! ## Nodes -/

/-- One node of a behaviour. -/
inductive Node where
  | noOp
  | action (action : Action)
  /-- Marks the opening move of enemies of at least this level. -/
  | preemptive (level : UInt32)
  | flagOperation (op : FlagOp) (mask : UInt64)
  | setCounter (op : CounterOp) (value : Int64)
  /-- Sets the counter to `value` if it is `compare`. -/
  | setCounterIf (compare value : Int64)
  | branchFlag (mask target : UInt64)
  | branchHp (compare : Comparison) (value : UInt32) (target : UInt64)
  | branchLevel (compare : Comparison) (value : UInt32) (target : UInt64)
  | branchCounter (compare : Comparison) (value : Int64) (target : UInt64)
  /-- Taken if one of the cards is on the player's team. -/
  | branchCard (cardIds : List UInt32) (target : UInt64)
  | branchCombo (combo : UInt32) (target : UInt64)
  /-- Taken if at most `count` enemies remain. -/
  | branchRemainingEnemies (count : UInt32) (target : UInt64)
  | countdown
  | endPath
deriving DecidableEq

namespace Node

/-- The position a branch leads to. -/
def target? : Node → Option UInt64
  | branchFlag _ target => some target
  | branchHp _ _ target => some target
  | branchLevel _ _ target => some target
  | branchCounter _ _ target => some target
  | branchCard _ target => some target
  | branchCombo _ target => some target
  | branchRemainingEnemies _ target => some target
  | noOp | action _ | preemptive _ | flagOperation .. | setCounter .. | setCounterIf ..
  | countdown | endPath => none

/-- The action of an action node. -/
def action? : Node → Option Action
  | action a => some a
  | _ => none

/-- Nodes that only state a trait of the enemy. -/
def isPassive (node : Node) : Bool := node.action?.any Action.isPassive

/-- Markers of the opening move. -/
def isPreemptive : Node → Bool
  | preemptive _ => true
  | _ => false

/-- Branches on the number of enemies that remain. -/
def isEnemyCountBranch : Node → Bool
  | branchRemainingEnemies .. => true
  | _ => false

/-- The HP percentages at which the node starts or stops to apply. -/
def hpBoundary? : Node → Option UInt32
  | branchHp _ value _ => some value
  | action a => a.hpThreshold?
  | _ => none

/-- The level at which the node starts or stops to apply. -/
def levelBoundary? : Node → Option UInt32
  | branchLevel _ value _ => some value
  | preemptive level => some level
  | _ => none

/-- The cards of the player's team that the node asks for. -/
def cardIds : Node → List UInt32
  | branchCard ids _ => ids
  | _ => []

/-- The unknown skill types of an action node. -/
def unknownTypes (node : Node) : List UInt32 := (node.action?.map Action.unknownTypes).getD []

end Node

end EnemyBehavior
