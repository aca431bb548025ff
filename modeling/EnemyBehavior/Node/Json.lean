import EnemyBehavior.Action.Json
import EnemyBehavior.Program

/-!
# Nodes and programs as JSON

A node is an object of its name under `node` and its parameters, or an array of them in order. An
action node has the fields of its action in the same object, and no array form. A program is the
array of its nodes.
-/

namespace EnemyBehavior

open Json (Body Reader)

/-! ## Writing -/

def Node.toJson (node : Node) : Json :=
  .object <| ("node", .string node.shape.name) ::
    match node with
    | .action a => a.jsonFields
    | _ => node.shape.jsonFields

def Program.toJson (p : Program) : Json := Json.ofList Node.toJson p.toList

/-! ## Reading -/

def Comparison.ofJson : Reader Comparison :=
  Json.toNamed Comparison.name [.less, .equal, .greaterOrEqual]

def FlagOp.ofJson : Reader FlagOp := Json.toNamed FlagOp.name [.set, .or, .unset, .xor]

def CounterOp.ofJson : Reader CounterOp := Json.toNamed CounterOp.name [.assign, .add, .subtract]

/-- Reads an action node from the fields behind its name. -/
def Node.actionOfBody : Body → Except ReadError Node
  | .named fields => (Action.ofJson (.object fields)).map .action
  | .placed _ => .error (.expected "an object")

/-- Reads the parameters of the node with a name. -/
def Node.ofBody (name : String) (b : Body) : Except ReadError Node :=
  let word32 (place : Nat) (field : String) := b.required place field Json.toUInt32
  let word64 (place : Nat) (field : String) := b.required place field Json.toUInt64
  let number (place : Nat) (field : String) := b.required place field Json.toInt64
  let comparison (place : Nat) := b.required place "compare" Comparison.ofJson
  let plain (node : Node) : Except ReadError Node := do
    b.sized 0
    return node
  match name with
  | "no_op" => plain .noOp
  | "action" => Node.actionOfBody b
  | "preemptive" => do
    b.sized 1
    return .preemptive (← word32 0 "level")
  | "flag_operation" => do
    b.sized 2
    return .flagOperation (← b.required 0 "op" FlagOp.ofJson) (← word64 1 "mask")
  | "set_counter" => do
    b.sized 2
    return .setCounter (← b.required 0 "op" CounterOp.ofJson) (← number 1 "value")
  | "set_counter_if" => do
    b.sized 2
    return .setCounterIf (← number 0 "compare") (← number 1 "value")
  | "branch_flag" => do
    b.sized 2
    return .branchFlag (← word64 0 "mask") (← word64 1 "target")
  | "branch_hp" => do
    b.sized 3
    return .branchHp (← comparison 0) (← word32 1 "value") (← word64 2 "target")
  | "branch_level" => do
    b.sized 3
    return .branchLevel (← comparison 0) (← word32 1 "value") (← word64 2 "target")
  | "branch_counter" => do
    b.sized 3
    return .branchCounter (← comparison 0) (← number 1 "value") (← word64 2 "target")
  | "branch_card" => do
    b.sized 2
    return .branchCard (← b.required 0 "card_ids" (Json.toList Json.toUInt32))
      (← word64 1 "target")
  | "branch_combo" => do
    b.sized 2
    return .branchCombo (← word32 0 "combo") (← word64 1 "target")
  | "branch_remaining_enemies" => do
    b.sized 2
    return .branchRemainingEnemies (← word32 0 "count") (← word64 1 "target")
  | "countdown" => plain .countdown
  | "end_path" => plain .endPath
  | _ => throw (.unknownName name)

def Node.ofJson : Reader Node := fun v => do
  v.readable
  let (name, b) ← (← v.body).tagged "node"
  Node.ofBody name b

/-- Reads the nodes of a program. -/
def nodesOfJson : Reader (List Node) := Json.toList Node.ofJson

/-- Why a program could not be read. -/
inductive ProgramReadError where
  | unreadable (error : ReadError)
  | branch (error : BranchOutOfBounds)
deriving DecidableEq

/-- Reads a program, and checks its branches. -/
def Program.ofJson (v : Json) : Except ProgramReadError Program :=
  match nodesOfJson v with
  | .error e => .error (.unreadable e)
  | .ok nodes => (Program.ofList nodes).mapError .branch

end EnemyBehavior
