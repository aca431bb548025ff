import EnemyBehavior.Json.Reading
import EnemyBehavior.Shape

/-!
# Actions as JSON

An action is an object of the skill number, the name of its kind under `kind` with the parameters
of the kind beside it, and the condition. A kind alone is an object of its name and parameters, or
an array of them in order.

Inside an action the kind may also be given by its place in the list of kinds. What parameters an
object holds depends on its kind, so all its fields have to be readable before it is known.

## Termination

Readers of actions recurse on the JSON value, through the fields named `skills`.
-/

namespace EnemyBehavior

open Json (Body Reader Field)

/-! ## Writing -/

def Condition.toJson (c : Condition) : Json := .object c.shape.jsonFields

/-- An effect as the fields of an object, its name first. -/
def Effect.jsonFields (e : Effect) : List Field :=
  ("kind", .string e.shape.name) :: e.shape.jsonFields

mutual

/-- An action as the fields of an object. -/
def Action.jsonFields : Action → List Field
  | .mk skillId kind condition =>
    ("skill_id", Json.ofUInt32 skillId)
      :: (kind.jsonFields ++ [("condition", Json.ofOption Condition.toJson condition)])
termination_by structural a => a

/-- A kind of action as the fields of an object, its name first. -/
def ActionKind.jsonFields : ActionKind → List Field
  | .effect e => e.jsonFields
  | .skillSet skills onDeath =>
    [("kind", .string skillSetName), ("skills", .array (Action.listToJson skills)),
     ("on_death", .bool onDeath)]
termination_by structural k => k

def Action.listToJson : List Action → List Json
  | [] => []
  | a :: as => .object a.jsonFields :: Action.listToJson as
termination_by structural as => as

end

def Action.toJson (a : Action) : Json := .object a.jsonFields

def ActionKind.toJson (k : ActionKind) : Json := .object k.jsonFields

theorem Action.listToJson_eq_map (as : List Action) :
    Action.listToJson as = as.map Action.toJson := by
  induction as with
  | nil => rfl
  | cons a as ih => rw [Action.listToJson, ih]; rfl

def actionsToJson (as : List Action) : Json := Json.ofList Action.toJson as

/-! ## Reading flat values -/

def Condition.ofJson : Reader Condition := fun v => do
  let b ← v.body
  b.sized 4
  return {
    triggerChance := ← b.required 0 "trigger_chance" Json.toUInt32
    randomChance := ← b.required 1 "random_chance" Json.toUInt32
    hpThreshold := ← b.optional 2 "hp_threshold" Json.toUInt32
    oneTime := ← b.optional 3 "one_time" Json.toUInt64 }

def BindTarget.ofJson : Reader BindTarget :=
  Json.toNamed BindTarget.name
    [.randomCards, .attribute, .typing, .activeSkills, .leaders, .randomSubs]

def RecoverTarget.ofJson : Reader RecoverTarget :=
  Json.toNamed RecoverTarget.name [.enemy, .enemyAlly, .player]

def DebuffStat.ofJson : Reader DebuffStat :=
  Json.toNamed DebuffStat.name [.moveTimeFlat, .moveTimePercent, .rcv]

def AbsorbSource.ofJson : Reader AbsorbSource :=
  Json.toNamed AbsorbSource.name [.attribute, .combo, .damage]

def SpawnLayout.ofJson : Reader SpawnLayout :=
  Json.toNamed SpawnLayout.name [.row, .column, .random, .board, .bombRandom, .bombFixed]

def SealLayout.ofJson : Reader SealLayout :=
  Json.toNamed SealLayout.name [.row, .column]

/-- Reads the parameters of the effect with a name. -/
def Effect.ofBody (name : String) (b : Body) : Except ReadError Effect :=
  let number (place : Nat) (field : String) := b.required place field Json.toInt64
  let numbers (place : Nat) (field : String) := b.required place field (Json.toList Json.toInt64)
  let flag (place : Nat) (field : String) := b.required place field Json.toBool
  let optional (place : Nat) (field : String) := b.optional place field Json.toInt64
  let plain (e : Effect) : Except ReadError Effect := do
    b.sized 0
    return e
  match name with
  | "default_attack" => plain .defaultAttack
  | "attack" => do
    b.sized 3
    return .attack (← number 0 "multiplier") (← number 1 "min_hits") (← number 2 "max_hits")
  | "preemptive_attack" => do
    b.sized 1
    return .preemptiveAttack (← number 0 "multiplier")
  | "bind" => do
    b.sized 5
    return .bind (← b.required 0 "target" BindTarget.ofJson) (← number 1 "selector")
      (← number 2 "min_turns") (← number 3 "max_turns") (← optional 4 "attack_multiplier")
  | "bind_awoken" => do
    b.sized 1
    return .bindAwoken (← number 0 "turns")
  | "orb_change" => do
    b.sized 4
    return .orbChange (← number 0 "from") (← number 1 "to") (← optional 2 "random_count")
      (← optional 3 "attack_multiplier")
  | "blind" => do
    b.sized 1
    return .blind (← optional 0 "attack_multiplier")
  | "sticky_blind" => do
    b.sized 4
    return .stickyBlind (← number 0 "turns") (← number 1 "min_count") (← number 2 "max_count")
      (← numbers 3 "positions")
  | "dispel" => plain .dispel
  | "status_shield" => do
    b.sized 1
    return .statusShield (← number 0 "turns")
  | "recover" => do
    b.sized 2
    return .recover (← b.required 0 "target" RecoverTarget.ofJson) (← number 1 "amount")
  | "enrage" => do
    b.sized 2
    return .enrage (← number 0 "multiplier") (← number 1 "turns")
  | "debuff" => do
    b.sized 3
    return .debuff (← b.required 0 "stat" DebuffStat.ofJson) (← number 1 "amount")
      (← number 2 "turns")
  | "inactivity" => plain .inactivity
  | "end_battle" => plain .endBattle
  | "death_cry" => do
    b.sized 1
    return .deathCry (← number 0 "message")
  | "change_attribute" => do
    b.sized 1
    return .changeAttribute (← numbers 0 "attributes")
  | "gravity" => do
    b.sized 1
    return .gravity (← number 0 "percent")
  | "absorb" => do
    b.sized 3
    return .absorb (← b.required 0 "source" AbsorbSource.ofJson) (← number 1 "value")
      (← number 2 "turns")
  | "void_shield" => do
    b.sized 2
    return .voidShield (← number 0 "threshold") (← number 1 "turns")
  | "damage_shield" => do
    b.sized 2
    return .damageShield (← number 0 "percent") (← number 1 "turns")
  | "invulnerable" => do
    b.sized 2
    return .invulnerable (← flag 0 "enabled") (← number 1 "turns")
  | "skyfall" => do
    b.sized 4
    return .skyfall (← number 0 "attributes") (← number 1 "chance") (← number 2 "turns")
      (← flag 3 "locked")
  | "leader_swap" => do
    b.sized 1
    return .leaderSwap (← number 0 "turns")
  | "orb_spawn" => do
    b.sized 5
    return .orbSpawn (← b.required 0 "layout" SpawnLayout.ofJson) (← numbers 1 "positions")
      (← number 2 "attributes") (← number 3 "count") (← optional 4 "attack_multiplier")
  | "orb_lock" => do
    b.sized 2
    return .orbLock (← number 0 "attributes") (← number 1 "count")
  | "orb_seal" => do
    b.sized 3
    return .orbSeal (← b.required 0 "layout" SealLayout.ofJson) (← number 1 "positions")
      (← number 2 "turns")
  | "cloud" => do
    b.sized 4
    return .cloud (← number 0 "width") (← number 1 "height") (← number 2 "turns")
      (← optional 3 "attack_multiplier")
  | "skill_delay" => do
    b.sized 1
    return .skillDelay (← number 0 "turns")
  | "fixed_start" => plain .fixedStart
  | "attribute_block" => do
    b.sized 2
    return .attributeBlock (← number 0 "attributes") (← number 1 "turns")
  | "spinners" => do
    b.sized 3
    return .spinners (← number 0 "speed") (← number 1 "turns") (← flag 2 "fixed")
  | "max_hp_change" => do
    b.sized 3
    return .maxHpChange (← number 0 "value") (← flag 1 "percent") (← number 2 "turns")
  | "fixed_target" => plain .fixedTarget
  | "turn_change" => do
    b.sized 1
    return .turnChange (← number 0 "turn_counter")
  | "countdown" => do
    b.sized 1
    return .countdown (← number 0 "remaining")
  | "attribute_resist" => do
    b.sized 2
    return .attributeResist (← number 0 "attributes") (← number 1 "percent")
  | "resolve" => do
    b.sized 1
    return .resolve (← number 0 "hp_threshold")
  | "turn_change_passive" => do
    b.sized 2
    return .turnChangePassive (← number 0 "hp_threshold") (← number 1 "turn_counter")
  | "type_resist" => do
    b.sized 2
    return .typeResist (← number 0 "types") (← number 1 "percent")
  | "unknown" => do
    b.sized 1
    return .unknown (← b.required 0 "skill_type" Json.toUInt32)
  | _ => throw (.unknownName name)

/-! ## Reading actions -/

/-- The names of the kinds of action, in order. -/
def kindNames : List String :=
  ["default_attack", "attack", "preemptive_attack", "bind", "bind_awoken", "orb_change", "blind",
   "sticky_blind", "dispel", "status_shield", "recover", "enrage", "debuff", "inactivity",
   "end_battle", "death_cry", "change_attribute", "gravity", "absorb", "void_shield",
   "damage_shield", "invulnerable", "skyfall", "leader_swap", "orb_spawn", "orb_lock", "orb_seal",
   "cloud", "skill_delay", "fixed_start", "attribute_block", "spinners", "max_hp_change",
   "fixed_target", "turn_change", skillSetName, "countdown", "attribute_resist", "resolve",
   "turn_change_passive", "type_resist", "unknown"]

/-- Reads the kind of an action: its name, or its place in the list of kinds. -/
def kindName : Reader String
  | .int i =>
    if 0 ≤ i then
      match kindNames[i.toNat]? with
      | some name => .ok name
      | none => .error (.outOfRange i)
    else .error (.outOfRange i)
  | v => v.toText

/-- Reads a kind of action from its name and parameters. Of the actions of a skill set, `skills`
holds what reading each field of that name gave. -/
def ActionKind.ofBody (name : String) (b : Body) (skills : List (Except ReadError (List Action))) :
    Except ReadError ActionKind :=
  if name = skillSetName then do
    b.sized 2
    let onDeath ← b.required 1 "on_death" Json.toBool
    match skills with
    | [] => throw (.missing "skills")
    | [skills] => return .skillSet (← skills) onDeath
    | _ => throw (.repeated "skills")
  else (Effect.ofBody name b).map .effect

/-- Refuses fields beside the number and the condition of an action that are unreadable, even if
they are unknown. -/
def kindFields (fields : List Field) : Except ReadError Unit :=
  (Json.object (fields.filter fun f => f.1 != "skill_id" && f.1 != "condition")).readable

mutual

def Action.ofJson : Reader Action
  | .object fields => do
    kindFields fields
    let b := Body.named fields
    let skillId ← b.required 0 "skill_id" Json.toUInt32
    let condition ← b.optional 0 "condition" Condition.ofJson
    let name ← b.required 0 "kind" kindName
    let kind ← ActionKind.ofBody name b (Action.skillsOfFields fields)
    return .mk skillId kind condition
  | _ => throw (.expected "an action")
termination_by structural v => v

/-- What reading each field named `skills` gives. -/
def Action.skillsOfFields : List Field → List (Except ReadError (List Action))
  | [] => []
  | (k, v) :: fs =>
    if k = "skills" then Action.listOfJson v :: Action.skillsOfFields fs
    else Action.skillsOfFields fs
termination_by structural fs => fs

def Action.listOfJson : Reader (List Action)
  | .array items => Action.listOfItems items
  | _ => throw (.expected "an array")
termination_by structural v => v

def Action.listOfItems : List Json → Except ReadError (List Action)
  | [] => .ok []
  | v :: vs => do
    let a ← Action.ofJson v
    let as ← Action.listOfItems vs
    return a :: as
termination_by structural vs => vs

end

def ActionKind.ofJson : Reader ActionKind := fun v => do
  v.readable
  let (name, b) ← (← v.body).tagged "kind"
  match b with
  | .named fields => ActionKind.ofBody name b (Action.skillsOfFields fields)
  | .placed items => ActionKind.ofBody name b ((items.take 1).map Action.listOfJson)

end EnemyBehavior
