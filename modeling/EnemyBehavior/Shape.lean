import EnemyBehavior.Json
import EnemyBehavior.Node

/-!
# Shapes

The name and the named parameters of a flat value. Both written forms are read off the shape: the
JSON object of the value and its text in log lines. Names are in small letters with low lines
between words, as in `orb_change`; log lines write them as `OrbChange`.
-/

namespace EnemyBehavior

/-! ## Scalars -/

/-- The value of one parameter. -/
inductive Scalar where
  | number (value : Int)
  | optional (value : Option Int)
  | numbers (values : List Int)
  | flag (value : Bool)
  | word (name : String)
deriving DecidableEq

/-- A parameter as JSON. -/
def Scalar.toJson : Scalar → Json
  | number i => .int i
  | optional none => .null
  | optional (some i) => .int i
  | numbers is => .array (is.map .int)
  | flag b => .bool b
  | word name => .string name

/-- A value that is a name with named parameters. -/
structure Shape where
  name : String
  fields : List (String × Scalar)
deriving DecidableEq

/-- The parameters as fields of a JSON object. -/
def Shape.jsonFields (s : Shape) : List Json.Field := s.fields.map fun f => (f.1, f.2.toJson)

/-! ## Names -/

/-- The name of a bind target. -/
def BindTarget.name : BindTarget → String
  | .randomCards => "random_cards"
  | .attribute => "attribute"
  | .typing => "typing"
  | .activeSkills => "active_skills"
  | .leaders => "leaders"
  | .randomSubs => "random_subs"

/-- The name of a recovery target. -/
def RecoverTarget.name : RecoverTarget → String
  | .enemy => "enemy"
  | .enemyAlly => "enemy_ally"
  | .player => "player"

/-- The name of a lowered stat. -/
def DebuffStat.name : DebuffStat → String
  | .moveTimeFlat => "move_time_flat"
  | .moveTimePercent => "move_time_percent"
  | .rcv => "rcv"

/-- The name of an absorbed source. -/
def AbsorbSource.name : AbsorbSource → String
  | .attribute => "attribute"
  | .combo => "combo"
  | .damage => "damage"

/-- The name of a spawn layout. -/
def SpawnLayout.name : SpawnLayout → String
  | .row => "row"
  | .column => "column"
  | .random => "random"
  | .board => "board"
  | .bombRandom => "bomb_random"
  | .bombFixed => "bomb_fixed"

/-- The name of a seal layout. -/
def SealLayout.name : SealLayout → String
  | .row => "row"
  | .column => "column"

/-- The name of a comparison. -/
def Comparison.name : Comparison → String
  | .less => "less"
  | .equal => "equal"
  | .greaterOrEqual => "greater_or_equal"

/-- The name of a flag operation. -/
def FlagOp.name : FlagOp → String
  | .set => "set"
  | .or => "or"
  | .unset => "unset"
  | .xor => "xor"

/-- The name of a counter operation. -/
def CounterOp.name : CounterOp → String
  | .assign => "assign"
  | .add => "add"
  | .subtract => "subtract"

/-! ## Shapes of conditions, effects and nodes -/

/-- An optional word as a parameter. -/
def optionalNumber (value : Option Int64) : Scalar := .optional (value.map (·.toInt))

/-- The parameters of a condition. -/
def Condition.shape (c : Condition) : Shape where
  name := "condition"
  fields :=
    [("trigger_chance", .number c.triggerChance.toNat),
     ("random_chance", .number c.randomChance.toNat),
     ("hp_threshold", .optional (c.hpThreshold.map fun w => w.toNat)),
     ("one_time", .optional (c.oneTime.map fun w => w.toNat))]

/-- A list of words as a parameter. -/
def numbersOf (values : List Int64) : Scalar := .numbers (values.map (·.toInt))

/-- The name and the parameters of an effect. -/
def Effect.shape : Effect → Shape
  | defaultAttack => ⟨"default_attack", []⟩
  | attack multiplier minHits maxHits =>
    ⟨"attack", [("multiplier", .number multiplier.toInt), ("min_hits", .number minHits.toInt),
      ("max_hits", .number maxHits.toInt)]⟩
  | preemptiveAttack multiplier =>
    ⟨"preemptive_attack", [("multiplier", .number multiplier.toInt)]⟩
  | bind target selector minTurns maxTurns attackMultiplier =>
    ⟨"bind", [("target", .word target.name), ("selector", .number selector.toInt),
      ("min_turns", .number minTurns.toInt), ("max_turns", .number maxTurns.toInt),
      ("attack_multiplier", optionalNumber attackMultiplier)]⟩
  | bindAwoken turns => ⟨"bind_awoken", [("turns", .number turns.toInt)]⟩
  | orbChange source result randomCount attackMultiplier =>
    ⟨"orb_change", [("from", .number source.toInt), ("to", .number result.toInt),
      ("random_count", optionalNumber randomCount),
      ("attack_multiplier", optionalNumber attackMultiplier)]⟩
  | blind attackMultiplier =>
    ⟨"blind", [("attack_multiplier", optionalNumber attackMultiplier)]⟩
  | stickyBlind turns minCount maxCount positions =>
    ⟨"sticky_blind", [("turns", .number turns.toInt), ("min_count", .number minCount.toInt),
      ("max_count", .number maxCount.toInt), ("positions", numbersOf positions)]⟩
  | dispel => ⟨"dispel", []⟩
  | statusShield turns => ⟨"status_shield", [("turns", .number turns.toInt)]⟩
  | recover target amount =>
    ⟨"recover", [("target", .word target.name), ("amount", .number amount.toInt)]⟩
  | enrage multiplier turns =>
    ⟨"enrage", [("multiplier", .number multiplier.toInt), ("turns", .number turns.toInt)]⟩
  | debuff stat amount turns =>
    ⟨"debuff", [("stat", .word stat.name), ("amount", .number amount.toInt),
      ("turns", .number turns.toInt)]⟩
  | inactivity => ⟨"inactivity", []⟩
  | endBattle => ⟨"end_battle", []⟩
  | deathCry message => ⟨"death_cry", [("message", .number message.toInt)]⟩
  | changeAttribute attributes => ⟨"change_attribute", [("attributes", numbersOf attributes)]⟩
  | gravity percent => ⟨"gravity", [("percent", .number percent.toInt)]⟩
  | absorb source value turns =>
    ⟨"absorb", [("source", .word source.name), ("value", .number value.toInt),
      ("turns", .number turns.toInt)]⟩
  | voidShield threshold turns =>
    ⟨"void_shield", [("threshold", .number threshold.toInt), ("turns", .number turns.toInt)]⟩
  | damageShield percent turns =>
    ⟨"damage_shield", [("percent", .number percent.toInt), ("turns", .number turns.toInt)]⟩
  | invulnerable enabled turns =>
    ⟨"invulnerable", [("enabled", .flag enabled), ("turns", .number turns.toInt)]⟩
  | skyfall attributes chance turns locked =>
    ⟨"skyfall", [("attributes", .number attributes.toInt), ("chance", .number chance.toInt),
      ("turns", .number turns.toInt), ("locked", .flag locked)]⟩
  | leaderSwap turns => ⟨"leader_swap", [("turns", .number turns.toInt)]⟩
  | orbSpawn layout positions attributes count attackMultiplier =>
    ⟨"orb_spawn", [("layout", .word layout.name), ("positions", numbersOf positions),
      ("attributes", .number attributes.toInt), ("count", .number count.toInt),
      ("attack_multiplier", optionalNumber attackMultiplier)]⟩
  | orbLock attributes count =>
    ⟨"orb_lock", [("attributes", .number attributes.toInt), ("count", .number count.toInt)]⟩
  | orbSeal layout positions turns =>
    ⟨"orb_seal", [("layout", .word layout.name), ("positions", .number positions.toInt),
      ("turns", .number turns.toInt)]⟩
  | cloud width height turns attackMultiplier =>
    ⟨"cloud", [("width", .number width.toInt), ("height", .number height.toInt),
      ("turns", .number turns.toInt), ("attack_multiplier", optionalNumber attackMultiplier)]⟩
  | skillDelay turns => ⟨"skill_delay", [("turns", .number turns.toInt)]⟩
  | fixedStart => ⟨"fixed_start", []⟩
  | attributeBlock attributes turns =>
    ⟨"attribute_block", [("attributes", .number attributes.toInt),
      ("turns", .number turns.toInt)]⟩
  | spinners speed turns fixed =>
    ⟨"spinners", [("speed", .number speed.toInt), ("turns", .number turns.toInt),
      ("fixed", .flag fixed)]⟩
  | maxHpChange value percent turns =>
    ⟨"max_hp_change", [("value", .number value.toInt), ("percent", .flag percent),
      ("turns", .number turns.toInt)]⟩
  | fixedTarget => ⟨"fixed_target", []⟩
  | turnChange turnCounter => ⟨"turn_change", [("turn_counter", .number turnCounter.toInt)]⟩
  | countdown remaining => ⟨"countdown", [("remaining", .number remaining.toInt)]⟩
  | attributeResist attributes percent =>
    ⟨"attribute_resist", [("attributes", .number attributes.toInt),
      ("percent", .number percent.toInt)]⟩
  | resolve hpThreshold => ⟨"resolve", [("hp_threshold", .number hpThreshold.toInt)]⟩
  | turnChangePassive hpThreshold turnCounter =>
    ⟨"turn_change_passive", [("hp_threshold", .number hpThreshold.toInt),
      ("turn_counter", .number turnCounter.toInt)]⟩
  | typeResist types percent =>
    ⟨"type_resist", [("types", .number types.toInt), ("percent", .number percent.toInt)]⟩
  | unknown skillType => ⟨"unknown", [("skill_type", .number skillType.toNat)]⟩

/-- The name of the kind of action that bundles actions. -/
def skillSetName : String := "skill_set"

/-- The name of a node that is an action. -/
def actionNodeName : String := "action"

/-- The name and the parameters of a node. An action node has the parameters of its action, which
are no scalars, and is left to its writers. -/
def Node.shape : Node → Shape
  | noOp => ⟨"no_op", []⟩
  | action _ => ⟨actionNodeName, []⟩
  | preemptive level => ⟨"preemptive", [("level", .number level.toNat)]⟩
  | flagOperation op mask =>
    ⟨"flag_operation", [("op", .word op.name), ("mask", .number mask.toNat)]⟩
  | setCounter op value =>
    ⟨"set_counter", [("op", .word op.name), ("value", .number value.toInt)]⟩
  | setCounterIf compare value =>
    ⟨"set_counter_if", [("compare", .number compare.toInt), ("value", .number value.toInt)]⟩
  | branchFlag mask target =>
    ⟨"branch_flag", [("mask", .number mask.toNat), ("target", .number target.toNat)]⟩
  | branchHp compare value target =>
    ⟨"branch_hp", [("compare", .word compare.name), ("value", .number value.toNat),
      ("target", .number target.toNat)]⟩
  | branchLevel compare value target =>
    ⟨"branch_level", [("compare", .word compare.name), ("value", .number value.toNat),
      ("target", .number target.toNat)]⟩
  | branchCounter compare value target =>
    ⟨"branch_counter", [("compare", .word compare.name), ("value", .number value.toInt),
      ("target", .number target.toNat)]⟩
  | branchCard cardIds target =>
    ⟨"branch_card", [("card_ids", .numbers (cardIds.map fun w => w.toNat)),
      ("target", .number target.toNat)]⟩
  | branchCombo combo target =>
    ⟨"branch_combo", [("combo", .number combo.toNat), ("target", .number target.toNat)]⟩
  | branchRemainingEnemies count target =>
    ⟨"branch_remaining_enemies", [("count", .number count.toNat),
      ("target", .number target.toNat)]⟩
  | countdown => ⟨"countdown", []⟩
  | endPath => ⟨"end_path", []⟩

end EnemyBehavior
