import EnemyBehavior.Enemy
import EnemyBehavior.Json.Text
import EnemyBehavior.Record.Json

/-!
# Enemies as JSON

An enemy is an object of its number, its level and its records, or an array of them in order. The
level may be null, and may be missing from an object.
-/

namespace EnemyBehavior

open Json (Reader)

def Enemy.toJson (e : Enemy) : Json :=
  .object [("enemy_id", Json.ofUInt32 e.enemyId), ("level", Json.ofOption Json.ofUInt32 e.level),
    ("skills", .array (SkillRecord.listToJson e.records))]

def Enemy.ofJson : Reader Enemy := fun v => do
  let b ← v.body
  b.sized 3
  return {
    enemyId := ← b.required 0 "enemy_id" Json.toUInt32
    level := ← b.optional 1 "level" Json.toUInt32
    records := ← b.required 2 "skills" SkillRecord.listOfJson }

/-- Reads an array of enemies. -/
def enemiesOfJson : Reader (List Enemy) := Json.toList Enemy.ofJson

/-- Reads an array of enemies from a text. -/
def enemiesOfText (text : String) : Except ReadError (List Enemy) :=
  match Json.parse? text with
  | some v => enemiesOfJson v
  | none => .error .malformed

end EnemyBehavior
