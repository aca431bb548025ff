import EnemyBehavior.Json.Reading
import EnemyBehavior.Record

/-!
# Skill records as JSON

A record is an object of its fields, or an array of them in order. All but the first two may be
missing: inputs are then empty, and so are the lists.

## Termination

Readers of records recurse on the JSON value, through the field that holds the sub-skills.
-/

namespace EnemyBehavior

open Json (Body Reader Field)

/-! ## Writing -/

mutual

def SkillRecord.toJson : SkillRecord → Json
  | ⟨skillId, skillType, ai, rnd, params, subSkills⟩ =>
    .object [("enemy_skill_id", Json.ofUInt32 skillId), ("skill_type", Json.ofUInt32 skillType),
      ("ai", Json.ofOption Json.ofInt64 ai), ("rnd", Json.ofOption Json.ofInt64 rnd),
      ("params", Json.ofList (Json.ofOption Json.ofInt64) params),
      ("sub_skills", .array (SkillRecord.listToJson subSkills))]
termination_by structural r => r

def SkillRecord.listToJson : List SkillRecord → List Json
  | [] => []
  | r :: rs => r.toJson :: SkillRecord.listToJson rs
termination_by structural rs => rs

end

theorem SkillRecord.listToJson_eq_map (rs : List SkillRecord) :
    SkillRecord.listToJson rs = rs.map SkillRecord.toJson := by
  induction rs with
  | nil => rfl
  | cons r rs ih => rw [SkillRecord.listToJson, ih, List.map_cons]

/-! ## Reading -/

/-- The name of the field that holds the sub-skills. -/
def subSkillsField : String := "sub_skills"

/-- The place of the field that holds the sub-skills. -/
def subSkillsPlace : Nat := 5

/-- Reads a record from its fields. `subSkills` holds what reading each field of the sub-skills
gave. -/
def SkillRecord.ofBody (b : Body) (subSkills : List (Except ReadError (List SkillRecord))) :
    Except ReadError SkillRecord := do
  b.sized 6
  let skillId ← b.required 0 "enemy_skill_id" Json.toUInt32
  let skillType ← b.required 1 "skill_type" Json.toUInt32
  let ai ← b.withDefault 2 "ai" none (Json.toOption Json.toInt64)
  let rnd ← b.withDefault 3 "rnd" none (Json.toOption Json.toInt64)
  let params ← b.withDefault 4 "params" [] (Json.toList (Json.toOption Json.toInt64))
  match subSkills with
  | [] => return ⟨skillId, skillType, ai, rnd, params, []⟩
  | [subSkills] => return ⟨skillId, skillType, ai, rnd, params, ← subSkills⟩
  | _ => throw (.repeated subSkillsField)

mutual

def SkillRecord.ofJson : Reader SkillRecord
  | .object fields =>
    SkillRecord.ofBody (.named fields) (SkillRecord.subSkillsOfFields fields)
  | .array items =>
    SkillRecord.ofBody (.placed items) (SkillRecord.subSkillsOfItems subSkillsPlace items)
  | _ => throw (.expected "a record")
termination_by structural v => v

/-- What reading each field of the sub-skills gives. -/
def SkillRecord.subSkillsOfFields : List Field → List (Except ReadError (List SkillRecord))
  | [] => []
  | (k, v) :: fs =>
    if k = subSkillsField then SkillRecord.listOfJson v :: SkillRecord.subSkillsOfFields fs
    else SkillRecord.subSkillsOfFields fs
termination_by structural fs => fs

/-- What reading the item at a place gives. -/
def SkillRecord.subSkillsOfItems (place : Nat) :
    List Json → List (Except ReadError (List SkillRecord))
  | [] => []
  | v :: vs =>
    match place with
    | 0 => [SkillRecord.listOfJson v]
    | place + 1 => SkillRecord.subSkillsOfItems place vs
termination_by structural vs => vs

def SkillRecord.listOfJson : Reader (List SkillRecord)
  | .array items => SkillRecord.listOfItems items
  | _ => throw (.expected "an array")
termination_by structural v => v

def SkillRecord.listOfItems : List Json → Except ReadError (List SkillRecord)
  | [] => .ok []
  | v :: vs => do
    let r ← SkillRecord.ofJson v
    let rs ← SkillRecord.listOfItems vs
    return r :: rs
termination_by structural vs => vs

end

end EnemyBehavior
