import EnemyBehavior.Words

/-!
# Skill records

The raw records that an enemy's behaviour comes in. A record has a numeric skill type, two optional
inputs `ai` and `rnd`, and a list of parameters some of which are empty. What they mean depends on
the type.
-/

namespace EnemyBehavior

/-! ## Parameters -/

/-- The parameters of a record. Slots are counted from 0 and may be empty. -/
abbrev Params := List (Option Int64)

namespace Params

/-- The value of a slot. -/
def value? (ps : Params) (slot : Nat) : Option Int64 := ps[slot]?.join

/-- The value of a slot, or zero. -/
def value (ps : Params) (slot : Nat) : Int64 := (ps.value? slot).getD 0

/-- The value of a slot unless it is zero. -/
def nonzero? (ps : Params) (slot : Nat) : Option Int64 :=
  if ps.value slot = 0 then none else some (ps.value slot)

/-- The values of `count` slots from `first` on, zero for each that is empty. -/
def range (ps : Params) (first count : Nat) : List Int64 :=
  (List.range' first count).map ps.value

/-- The value of a slot if it is positive. -/
def positive? (ps : Params) (slot : Nat) : Option Int64 := (ps.value? slot).filter (0 < ·)

end Params

/-! ## Records -/

/-- A raw skill record. -/
structure SkillRecord where
  skillId : UInt32
  skillType : UInt32
  ai : Option Int64
  rnd : Option Int64
  params : Params
  /-- The records that a skill set bundles. -/
  subSkills : List SkillRecord

/-- The inputs of a record. -/
inductive RecordField where
  | ai | rnd
deriving DecidableEq

/-- The name of an input. -/
def RecordField.name : RecordField → String
  | ai => "ai"
  | rnd => "rnd"

/-- What is wrong with a record. -/
inductive RecordError where
  | missingField (skillId skillType : UInt32) (field : RecordField)
  | invalidValue (skillId skillType : UInt32) (field : RecordField) (value : Int64)
deriving DecidableEq

/-- The text a bad record is reported with. -/
def RecordError.message : RecordError → String
  | missingField id type field =>
    s!"skill {id} (type {type}) is missing required field `" ++ field.name ++ "`"
  | invalidValue id type field value =>
    s!"skill {id} (type {type}) has invalid value {value.toInt} for `" ++ field.name ++ "`"

namespace SkillRecord

/-- The value of an input. -/
def input (r : SkillRecord) : RecordField → Option Int64
  | .ai => r.ai
  | .rnd => r.rnd

/-- An input that the type of the record needs. -/
def required (r : SkillRecord) (field : RecordField) : Except RecordError Int64 :=
  match r.input field with
  | some value => .ok value
  | none => .error (.missingField r.skillId r.skillType field)

/-- An input that the type of the record needs, and that must not be negative. -/
def nonNegative (r : SkillRecord) (field : RecordField) : Except RecordError UInt64 := do
  let value ← r.required field
  if 0 ≤ value then return value.toUInt64
  else throw (.invalidValue r.skillId r.skillType field value)

end SkillRecord

end EnemyBehavior
