import EnemyBehavior.Record.Rules

/-!
# Decoding skill records

A record becomes one node. If its type is a logic type, the node is that of the rule; otherwise it
is an action node. A type that no rule covers gives an action of unknown kind, and so is never an
error; this holds for the sub-skills of skill sets too, where logic types count as unknown.

An action gets a condition if the record has both inputs, unless it is a trait of the enemy.
Sub-skills have none.

Decoding fails for a record that lacks an input its type needs, and it breaks off when arithmetic on
parameters overflows.

## Termination

`SkillRecord.kind?` recurses on the nesting of sub-skills.
-/

namespace EnemyBehavior

/-- Why decoding stopped. -/
inductive DecodeFailure where
  | defect (error : RecordError)
  | overflow (cause : Overflow)
deriving DecidableEq

/-! ## Conditions -/

/-- The slot of the HP percentage below which an action is available. -/
def hpThresholdSlot : Nat := 11

/-- The slot of the bits that an action uses up. -/
def oneTimeSlot : Nat := 13

/-- The percentage nearest to a value. -/
def nearestPercent (value : Int64) : UInt32 := nearestUInt32 (max 0 (min value.toInt 100))

/-- The condition of a record with both inputs. Gates that are not positive are no gates. -/
def SkillRecord.condition? (r : SkillRecord) : Option Condition := do
  let ai ← r.ai
  let rnd ← r.rnd
  return {
    triggerChance := nearestPercent ai
    randomChance := nearestPercent rnd
    hpThreshold := (r.params.positive? hpThresholdSlot).map fun v => nearestUInt32 v.toInt
    oneTime := (r.params.positive? oneTimeSlot).map (·.toUInt64) }

/-! ## Kinds of action -/

/-- The effect of a skill type, if it is one. -/
def effect? (skillType : Nat) (ps : Params) : Except Overflow (Option Effect) :=
  match effectRules.lookup skillType with
  | some rule => (rule.apply ps).map some
  | none => .ok none

mutual

/-- What an action of this record does, if its type is that of an action. -/
def SkillRecord.kind? : SkillRecord → Except DecodeFailure (Option ActionKind)
  | ⟨_, skillType, _, _, params, subSkills⟩ =>
    -- only a skill set looks at its sub-skills, so nothing inside others can overflow
    if skillType.toNat ∈ skillSetTypes then do
      let skills ← SkillRecord.actionsOf subSkills
      return some (.skillSet skills (skillType.toNat == deathSkillSetType))
    else ((effect? skillType.toNat params).map (·.map .effect)).mapError .overflow
termination_by structural r => r

/-- The actions of sub-skills. -/
def SkillRecord.actionsOf : List SkillRecord → Except DecodeFailure (List Action)
  | [] => .ok []
  | r :: rs => do
    let kind ← r.kind?
    let actions ← SkillRecord.actionsOf rs
    return .mk r.skillId (kind.getD (.effect (.unknown r.skillType))) none :: actions
termination_by structural rs => rs

end

/-! ## Nodes -/

namespace SkillRecord

/-- The rule of a record whose type is a logic type. -/
def logicRule? (r : SkillRecord) : Option LogicRule := logicRules.lookup r.skillType.toNat

/-- The action of a record. Its kind is unknown if no rule covers the type. -/
def action (r : SkillRecord) : Except DecodeFailure Action := do
  let kind := (← r.kind?).getD (.effect (.unknown r.skillType))
  return .mk r.skillId kind (if kind.isPassive then none else r.condition?)

/-- The node of a record. -/
def decode (r : SkillRecord) : Except DecodeFailure Node :=
  match r.logicRule? with
  | some rule => (rule.apply r).mapError .defect
  | none => r.action.map .action

variable {r : SkillRecord}

theorem action_eq_ok_iff {a : Action} :
    r.action = .ok a ↔
      ∃ kind, r.kind? = .ok kind ∧
        a = .mk r.skillId (kind.getD (.effect (.unknown r.skillType)))
          (if (kind.getD (.effect (.unknown r.skillType))).isPassive then none
            else r.condition?) := by
  rw [action, bind_eq_ok_iff]
  exact exists_congr fun kind => and_congr_right fun _ =>
    ⟨fun h => (Except.ok.inj h).symm, fun h => congrArg Except.ok h.symm⟩

theorem decode_of_rule {rule : LogicRule} (h : r.logicRule? = some rule) :
    r.decode = (rule.apply r).mapError .defect := by
  rw [decode, h]

theorem decode_of_no_rule (h : r.logicRule? = none) :
    r.decode = r.action.map .action := by
  rw [decode, h]

end SkillRecord

/-- The nodes of a list of records, or the first failure. -/
def decodeBehavior (records : List SkillRecord) : Except DecodeFailure (List Node) :=
  records.mapM SkillRecord.decode

end EnemyBehavior
