import EnemyBehavior.Node.Execute
import EnemyBehavior.Program

/-!
# Walks

On its turn an enemy walks its program from position 1 until a node ends the walk. A walk also
ends when it runs off the program, when it comes to a position a second time, or when it has
executed `maxSteps` nodes. In the first two cases an enemy that has used no action attacks plainly.

A `Trace` records the nodes of a walk one by one. All that is told of a walk (its actions, its
length, how it ended) is read off its trace.

## Termination

`Program.traceFrom` recurses on the number of nodes that may still be executed.
-/

namespace EnemyBehavior

/-- The most nodes that one walk executes. -/
def maxSteps : Nat := 1000

/-! ## Traces -/

/-- The execution of one node. -/
structure Visit where
  position : Nat
  node : Node
  /-- The state before the node. -/
  before : BattleState
  flow : Flow
  /-- The state after the node. -/
  after : BattleState
deriving DecidableEq

/-- How a walk came to its end. -/
inductive Ending where
  /-- The last node executed ended the walk. -/
  | stopped
  /-- There is no node at this position. -/
  | ranOff (position : Nat)
  /-- The node at this position had been executed before. -/
  | revisited (position : Nat)
  /-- The walk was cut short before the node at this position. -/
  | cutShort (position : Nat)
  /-- The node at this position could not be executed. -/
  | faulted (position : Nat) (node : Node) (fault : Fault)
deriving DecidableEq

/-- The nodes executed by a walk, how it ended, and the state it left. -/
structure Trace where
  visits : List Visit
  ending : Ending
  final : BattleState
deriving DecidableEq

namespace Trace

def ended (ending : Ending) (s : BattleState) : Trace := ⟨[], ending, s⟩

/-- A trace with one more visit in front. -/
def cons (visit : Visit) (t : Trace) : Trace := { t with visits := visit :: t.visits }

/-- The actions that fired, in order. -/
def emitted (t : Trace) : List Action := t.visits.filterMap (·.flow.emitted?)

/-- The actions of the turn: those that fired, or a plain attack if none fired and the walk ran off
the program or came back to a node. -/
def actions (t : Trace) : List Action :=
  match t.ending, t.emitted with
  | .ranOff _, [] => [Action.defaultAttack]
  | .revisited _, [] => [Action.defaultAttack]
  | _, emitted => emitted

/-- The number of nodes executed. A node that could not be executed counts. -/
def steps (t : Trace) : Nat :=
  match t.ending with
  | .faulted .. => t.visits.length + 1
  | _ => t.visits.length

def hitStepCap (t : Trace) : Bool :=
  match t.ending with
  | .cutShort _ => true
  | _ => false

/-- Why the walk could not go on, if it met a node that could not be executed. -/
def fault? (t : Trace) : Option Fault :=
  match t.ending with
  | .faulted _ _ fault => some fault
  | _ => none

end Trace

/-! ## Walking -/

namespace Program

/-- Walks on from a position. `visited` holds the positions of the nodes executed so far, and
`budget` is the number of nodes that may still be executed. -/
def traceFrom (p : Program) : (budget position : Nat) → (visited : List Nat) → BattleState → Trace
  | budget, position, visited, s =>
    match p.node? position with
    | none => .ended (.ranOff position) s
    | some node =>
      -- a walk that is back at a node loops, even on its last step
      if visited.contains position then .ended (.revisited position) s
      else match budget with
        | 0 => .ended (.cutShort position) s
        | budget + 1 =>
          match node.execute s with
          | .error fault => .ended (.faulted position node fault) s
          | .ok (flow, s') =>
            .cons ⟨position, node, s, flow, s'⟩ <|
              match flow.successor? position with
              | none => .ended .stopped s'
              | some next => p.traceFrom budget next (position :: visited) s'
termination_by structural budget => budget

/-- Walks the program once. Marks of the opening move from earlier walks are forgotten first. -/
def trace (p : Program) (s : BattleState) : Trace := p.traceFrom maxSteps 1 [] s.clearMarks

end Program

/-! ## Results -/

/-- What is told of a walk. -/
structure Walk where
  actions : List Action
  steps : Nat
  hitStepCap : Bool
  fault : Option Fault
deriving DecidableEq

def Trace.walk (t : Trace) : Walk := ⟨t.actions, t.steps, t.hitStepCap, t.fault?⟩

/-- Walks the program once and gives the result with the state left behind. -/
def Program.walk (p : Program) (s : BattleState) : Walk × BattleState :=
  ((p.trace s).walk, (p.trace s).final)

/-! ## Probes -/

/-- A walk together with the state it was started from. -/
structure Probe where
  start : BattleState
  trace : Trace
deriving DecidableEq

/-- Walks the program once from a state. -/
def Program.probe (p : Program) (s : BattleState) : Probe := ⟨s, p.trace s⟩

namespace Probe

def actions (q : Probe) : List Action := q.trace.actions

def final (q : Probe) : BattleState := q.trace.final

/-- The actions with the HP percentage they were used at. -/
def entry (q : Probe) : UInt32 × List Action := (q.start.hp, q.actions)

end Probe

end EnemyBehavior
