import EnemyBehavior.Action.Json
import EnemyBehavior.Skillset

/-!
# Skillsets as JSON

Each group and the skillset itself is an object of its fields, or an array of them in order.
-/

namespace EnemyBehavior

open Json (Reader Field)

/-! ## Writing -/

def TimedGroup.toJson (g : TimedGroup) : Json :=
  .object [("turn", Json.ofUInt32 g.turn), ("hp", Json.ofUInt32 g.hp),
    ("actions", actionsToJson g.actions)]

def EnemyCountGroup.toJson (g : EnemyCountGroup) : Json :=
  .object [("count", Json.ofUInt32 g.count), ("actions", actionsToJson g.actions),
    ("follow_up_actions", Json.ofOption actionsToJson g.followUp)]

def HpGroup.toJson (g : HpGroup) : Json :=
  .object [("hp_ceiling", Json.ofUInt32 g.ceiling), ("actions", actionsToJson g.actions)]

/-- A skillset as the fields of an object. -/
def Skillset.jsonFields (s : Skillset) : List Field :=
  [("level", Json.ofUInt32 s.level),
   ("base_abilities", actionsToJson s.baseAbilities),
   ("preemptives", actionsToJson s.preemptives),
   ("timed_skill_groups", Json.ofList TimedGroup.toJson s.timed),
   ("repeating_skill_groups", Json.ofList TimedGroup.toJson s.repeating),
   ("enemycount_skill_groups", Json.ofList EnemyCountGroup.toJson s.enemyCount),
   ("hp_skill_groups", Json.ofList HpGroup.toJson s.hp)]

def Skillset.toJson (s : Skillset) : Json := .object s.jsonFields

/-! ## Reading -/

def TimedGroup.ofJson : Reader TimedGroup := fun v => do
  let b ← v.body
  b.sized 3
  return {
    turn := ← b.required 0 "turn" Json.toUInt32
    hp := ← b.required 1 "hp" Json.toUInt32
    actions := ← b.required 2 "actions" Action.listOfJson }

def EnemyCountGroup.ofJson : Reader EnemyCountGroup := fun v => do
  let b ← v.body
  b.sized 3
  return {
    count := ← b.required 0 "count" Json.toUInt32
    actions := ← b.required 1 "actions" Action.listOfJson
    followUp := ← b.optional 2 "follow_up_actions" Action.listOfJson }

def HpGroup.ofJson : Reader HpGroup := fun v => do
  let b ← v.body
  b.sized 2
  return {
    ceiling := ← b.required 0 "hp_ceiling" Json.toUInt32
    actions := ← b.required 1 "actions" Action.listOfJson }

def Skillset.ofJson : Reader Skillset := fun v => do
  let b ← v.body
  b.sized 7
  return {
    level := ← b.required 0 "level" Json.toUInt32
    baseAbilities := ← b.required 1 "base_abilities" Action.listOfJson
    preemptives := ← b.required 2 "preemptives" Action.listOfJson
    timed := ← b.required 3 "timed_skill_groups" (Json.toList TimedGroup.ofJson)
    repeating := ← b.required 4 "repeating_skill_groups" (Json.toList TimedGroup.ofJson)
    enemyCount := ← b.required 5 "enemycount_skill_groups" (Json.toList EnemyCountGroup.ofJson)
    hp := ← b.required 6 "hp_skill_groups" (Json.toList HpGroup.ofJson) }

end EnemyBehavior
