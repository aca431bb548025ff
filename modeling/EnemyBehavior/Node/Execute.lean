import EnemyBehavior.BattleState
import EnemyBehavior.Node

/-!
# Executing one node

A node is executed by the handler of its family: action nodes decide whether the action fires,
register nodes change a register, and all other nodes steer the walk. Handed a node of another
family, a handler refuses it with `Fault.foreignNode` and leaves the state alone.

The result of a node is a `Flow`: what is reported and where the walk goes on.

## Main statements

* `Node.accepts_handler` — every node is accepted by the handler of its family
* `Handler.execute_eq_error_iff` — a handler fails on foreign nodes and on nothing else
-/

namespace EnemyBehavior

/-! ## Whether an action fires -/

/-- The decision on an action that has been reached. -/
inductive Verdict where
  /-- The action is reported and the walk goes on. -/
  | fire
  /-- The action is passed over. -/
  | skip
  /-- The action is reported and uses up the turn. -/
  | fireAndStop
deriving DecidableEq

namespace Condition

/-- The HP gate is open. -/
def hpAllows (c : Condition) (hp : UInt32) : Bool := c.hpThreshold.all (hp < ·)

/-- Decides on an action with this condition: first the HP gate, then the one-time gate, then the
trigger chance. A one-time action that fires uses up its bits. -/
def evaluate (c : Condition) (s : BattleState) : Verdict × BattleState :=
  if c.hpAllows s.hp then
    match c.oneTime with
    | some mask =>
      if s.oneTimeFlags &&& mask = 0 then
        (.fireAndStop, { s with oneTimeFlags := s.oneTimeFlags ||| mask })
      else (.skip, s)
    | none => (if 100 ≤ c.triggerChance then .fireAndStop else .fire, s)
  else (.skip, s)

end Condition

/-- Decides on an action that may have a condition. Without one it fires and ends the turn. -/
def verdictOn : Option Condition → BattleState → Verdict × BattleState
  | none, s => (.fireAndStop, s)
  | some c, s => c.evaluate s

/-! ## Flow -/

/-- What a node reports and where the walk goes on. -/
inductive Flow where
  /-- Go on at the next position. -/
  | next
  /-- Go on at a position counted from 1. -/
  | jump (target : UInt64)
  /-- Report the action and go on at the next position. -/
  | emit (action : Action)
  /-- Report the action and end the walk. -/
  | emitAndStop (action : Action)
  /-- End the walk. -/
  | stop
deriving DecidableEq

namespace Flow

/-- The action that is reported. -/
def emitted? : Flow → Option Action
  | emit a => some a
  | emitAndStop a => some a
  | next | jump _ | stop => none

/-- The position after `position`, unless the walk ends. -/
def successor? (position : Nat) : Flow → Option Nat
  | next => some (position + 1)
  | emit _ => some (position + 1)
  | jump target => some target.toNat
  | emitAndStop _ | stop => none

end Flow

/-! ## Handlers -/

/-- Why a node could not be executed. -/
inductive Fault where
  | foreignNode
deriving DecidableEq

/-- The text a fault is reported with. -/
def Fault.message : Fault → String
  | .foreignNode => "Instruction routed to a processor that cannot handle it"

/-- The families of nodes, each with a handler of its own. -/
inductive Handler where
  | actions | registers | controlFlow
deriving DecidableEq

/-- The handler of the node's family. -/
def Node.handler : Node → Handler
  | .action _ => .actions
  | .flagOperation .. | .setCounter .. | .setCounterIf .. => .registers
  | .noOp | .preemptive _ | .branchFlag .. | .branchHp .. | .branchLevel .. | .branchCounter ..
  | .branchCard .. | .branchCombo .. | .branchRemainingEnemies .. | .countdown | .endPath =>
    .controlFlow

namespace Handler

/-- Whether the node belongs to the handler's family. -/
def accepts : Handler → Node → Bool
  | actions, .action _ => true
  | registers, .flagOperation .. => true
  | registers, .setCounter .. => true
  | registers, .setCounterIf .. => true
  | controlFlow, node =>
    match node with
    | .action _ | .flagOperation .. | .setCounter .. | .setCounterIf .. => false
    | _ => true
  | _, _ => false

/-- Executes an action node: the verdict on the action becomes the flow. -/
def executeAction : Node → BattleState → Except Fault (Flow × BattleState)
  | .action a, s =>
    match verdictOn a.condition s with
    | (.fireAndStop, s') => .ok (.emitAndStop a, s')
    | (.fire, s') => .ok (.emit a, s')
    | (.skip, s') => .ok (.next, s')
  | _, _ => .error .foreignNode

/-- Executes a register node. -/
def executeRegister : Node → BattleState → Except Fault (Flow × BattleState)
  | .flagOperation op mask, s => .ok (.next, s.applyFlagOp op mask)
  | .setCounter op value, s => .ok (.next, s.applyCounterOp op value)
  | .setCounterIf compare value, s =>
    .ok (.next, if s.counter = compare then { s with counter := value } else s)
  | _, _ => .error .foreignNode

/-- A branch goes to its target if it is taken, and on otherwise. -/
def branch (taken : Bool) (target : UInt64) : Flow := if taken then .jump target else .next

/-- Executes a node that steers the walk. Combos are not simulated, so a combo branch is never
taken. A countdown lets the enemy act only when the counter is 1. -/
def executeControlFlow : Node → BattleState → Except Fault (Flow × BattleState)
  | .noOp, s => .ok (.next, s)
  | .preemptive level, s =>
    .ok (.next, { s with isPreemptive := true, doPreemptive := decide (level ≤ s.level) })
  | .branchFlag mask target, s => .ok (branch (s.hasFlags mask) target, s)
  | .branchHp compare value target, s => .ok (branch (compare.test s.hp value) target, s)
  | .branchLevel compare value target, s => .ok (branch (compare.test s.level value) target, s)
  | .branchCounter compare value target, s =>
    .ok (branch (compare.test s.counter value) target, s)
  | .branchCard ids target, s => .ok (branch (s.hasAnyCard ids) target, s)
  | .branchCombo _ target, s => .ok (branch false target, s)
  | .branchRemainingEnemies count target, s => .ok (branch (s.enemies ≤ count) target, s)
  | .countdown, s =>
    .ok (if s.counter = 1 then .next else .emitAndStop (.countdown s.counter),
      { s with countdown := true })
  | .endPath, s => .ok (.stop, s)
  | _, _ => .error .foreignNode

/-- Executes a node of the handler's family. -/
def execute : Handler → Node → BattleState → Except Fault (Flow × BattleState)
  | actions => executeAction
  | registers => executeRegister
  | controlFlow => executeControlFlow

theorem executeAction_eq_error_iff {node : Node} {s : BattleState} {f : Fault} :
    executeAction node s = .error f ↔ actions.accepts node = false := by
  cases f
  cases node with
  | action a =>
    simp only [executeAction, accepts]
    split <;> exact ⟨nofun, nofun⟩
  | _ => exact ⟨fun _ => rfl, fun _ => rfl⟩

theorem executeRegister_eq_error_iff {node : Node} {s : BattleState} {f : Fault} :
    executeRegister node s = .error f ↔ registers.accepts node = false := by
  cases f
  cases node with
  | flagOperation | setCounter | setCounterIf => exact ⟨nofun, nofun⟩
  | _ => exact ⟨fun _ => rfl, fun _ => rfl⟩

theorem executeControlFlow_eq_error_iff {node : Node} {s : BattleState} {f : Fault} :
    executeControlFlow node s = .error f ↔ controlFlow.accepts node = false := by
  cases f
  cases node with
  | action | flagOperation | setCounter | setCounterIf => exact ⟨fun _ => rfl, fun _ => rfl⟩
  | _ => exact ⟨nofun, nofun⟩

theorem execute_eq_error_iff {h : Handler} {node : Node} {s : BattleState} {f : Fault} :
    h.execute node s = .error f ↔ h.accepts node = false := by
  cases h with
  | actions => exact executeAction_eq_error_iff
  | registers => exact executeRegister_eq_error_iff
  | controlFlow => exact executeControlFlow_eq_error_iff

end Handler

/-- Executes a node by the handler of its family. -/
def Node.execute (node : Node) (s : BattleState) : Except Fault (Flow × BattleState) :=
  if node.handler.accepts node then node.handler.execute node s else .error .foreignNode

theorem Node.accepts_handler (node : Node) : node.handler.accepts node = true := by
  cases node <;> rfl

end EnemyBehavior
