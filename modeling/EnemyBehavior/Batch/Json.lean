import EnemyBehavior.Batch
import EnemyBehavior.Skillset.Json

/-!
# Summaries as JSON

The summary of an enemy is an object of its number and the fields of its skillset.
-/

namespace EnemyBehavior

def EnemySummary.toJson (s : EnemySummary) : Json :=
  .object (("enemy_id", Json.ofUInt32 s.enemyId) :: s.skillset.jsonFields)

def summariesToJson (summaries : List EnemySummary) : Json :=
  Json.ofList EnemySummary.toJson summaries

end EnemyBehavior
