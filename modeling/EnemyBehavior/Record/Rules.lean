import EnemyBehavior.Node
import EnemyBehavior.Record

/-!
# What skill types mean

Two tables give the meaning of the skill types. `logicRules` holds the types that are nodes of the
behaviour's logic, `effectRules` those that are effects. Two further types, `skillSetTypes`, bundle
the sub-skills of their record. Any other type is unknown.

A logic rule also says which inputs the record must have, and which of them must not be negative;
the inputs are checked in the order `ai`, `rnd`. An effect rule needs no input, and only two effects
do arithmetic on parameters that can overflow.
-/

namespace EnemyBehavior

/-! ## Logic -/

/-- How a logic node is made from a record. -/
inductive LogicRule where
  | constant (node : Node)
  | ofParams (make : Params → Node)
  /-- From `ai`, not negative. -/
  | ofMask (make : (mask : UInt64) → Node)
  /-- From `ai`, of any sign. -/
  | ofValue (make : (value : Int64) → Node)
  /-- From `ai` and `rnd`, of any sign. -/
  | ofValues (make : (ai rnd : Int64) → Node)
  /-- From `ai` and `rnd`, neither negative. -/
  | ofMaskAndTarget (make : (mask target : UInt64) → Node)
  /-- From `ai`, of any sign, and `rnd`, not negative. -/
  | ofValueAndTarget (make : (value : Int64) → (target : UInt64) → Node)
  /-- From the parameters and `rnd`, not negative. -/
  | ofParamsAndTarget (make : Params → (target : UInt64) → Node)

/-- The largest 32-bit word that is not above a 64-bit word. -/
def capUInt32 (w : UInt64) : UInt32 := nearestUInt32 w.toNat

/-- The parameters that are card numbers. -/
def cardIdsOf (ps : Params) : List UInt32 :=
  ps.filterMap fun slot => slot.bind fun id => exactUInt32? id.toInt

/-- The skill types that are logic nodes. -/
def logicRules : List (Nat × LogicRule) :=
  [(0, .constant .noOp),
   (22, .ofMask (.flagOperation .set ·)),
   (23, .ofMaskAndTarget .branchFlag),
   (24, .ofMask (.flagOperation .unset ·)),
   (25, .ofValue (.setCounter .assign ·)),
   (26, .constant (.setCounter .add 1)),
   (27, .constant (.setCounter .subtract 1)),
   (28, .ofMaskAndTarget fun value target => .branchHp .less (capUInt32 value) target),
   (29, .ofMaskAndTarget fun value target => .branchHp .greaterOrEqual (capUInt32 value) target),
   (30, .ofValueAndTarget (.branchCounter .less · ·)),
   (31, .ofValueAndTarget (.branchCounter .equal · ·)),
   (32, .ofValueAndTarget (.branchCounter .greaterOrEqual · ·)),
   (33, .ofMaskAndTarget fun value target => .branchLevel .less (capUInt32 value) target),
   (34, .ofMaskAndTarget fun value target => .branchLevel .equal (capUInt32 value) target),
   (35, .ofMaskAndTarget fun value target => .branchLevel .greaterOrEqual (capUInt32 value) target),
   (36, .constant .endPath),
   (37, .constant .countdown),
   (38, .ofValues .setCounterIf),
   (43, .ofMaskAndTarget .branchFlag),
   (44, .ofMask (.flagOperation .or ·)),
   (45, .ofMask (.flagOperation .xor ·)),
   (49, .ofParams fun ps => .preemptive (nearestUInt32 (ps.value 1).toInt)),
   (90, .ofParamsAndTarget fun ps target => .branchCard (cardIdsOf ps) target),
   (113, .ofMaskAndTarget fun combo target => .branchCombo (capUInt32 combo) target),
   (120, .ofMaskAndTarget fun count target => .branchRemainingEnemies (capUInt32 count) target)]

/-- Makes the node, or names the first input that is not as it must be. -/
def LogicRule.apply (rule : LogicRule) (r : SkillRecord) : Except RecordError Node := do
  match rule with
  | constant node => return node
  | ofParams make => return make r.params
  | ofMask make => return make (← r.nonNegative .ai)
  | ofValue make => return make (← r.required .ai)
  | ofValues make => return make (← r.required .ai) (← r.required .rnd)
  | ofMaskAndTarget make => return make (← r.nonNegative .ai) (← r.nonNegative .rnd)
  | ofValueAndTarget make => return make (← r.required .ai) (← r.nonNegative .rnd)
  | ofParamsAndTarget make => return make r.params (← r.nonNegative .rnd)

/-! ## Effects -/

/-- How an effect is made from parameters. -/
inductive EffectRule where
  | plain (make : Params → Effect)
  /-- With arithmetic that has to fit a word. -/
  | checked (make : Params → Except Overflow Effect)

/-- The attribute of jammer orbs. -/
def jammerOrb : Int64 := 6

/-- The attribute of poison orbs. -/
def poisonOrb : Int64 := 7

/-- The attribute of mortal poison orbs. -/
def mortalPoisonOrb : Int64 := 8

/-- Stands for orbs of any attribute. -/
def anyOrb : Int64 := -1

/-- A bind in its usual form. -/
def bindRule (target : BindTarget) : EffectRule :=
  .plain fun ps => .bind target (ps.value 1) (ps.value 2) (ps.value 3) none

/-- Turns a number of random orbs into orbs of one attribute. -/
def randomOrbsRule (orb : Int64) : EffectRule :=
  .plain fun ps => .orbChange anyOrb orb (some (ps.value 1)) none

/-- Turns orbs of one attribute into another, after an attack. -/
def attackAndOrbChangeRule : EffectRule :=
  .plain fun ps => .orbChange (ps.value 2) (ps.value 3) none (ps.nonzero? 1)

/-- An enrage, whose slots move up by one if slot 3 is filled. -/
def enrageRule : EffectRule :=
  .plain fun ps =>
    match ps.value? 3 with
    | none => .enrage (ps.value 2) (ps.value 1)
    | some multiplier => .enrage multiplier (ps.value 2)

/-- Spawns orbs on one line. -/
def lineSpawnRule (layout : SpawnLayout) : EffectRule :=
  .plain fun ps => .orbSpawn layout [ps.value 1] (ps.value 2) 0 none

/-- Spawns orbs on up to three lines. A line counts only if neither its position nor its attributes
are zero. -/
def linesSpawnRule (layout : SpawnLayout) : EffectRule :=
  .plain fun ps =>
    let lines := [1, 3, 5].filter fun slot => ps.value slot != 0 && ps.value (slot + 1) != 0
    .orbSpawn layout (lines.map ps.value)
      (lines.foldl (fun bits slot => bits ||| ps.value (slot + 1)) 0) 0 (ps.nonzero? 7)

/-- The attribute bits of a list that ends at the first slot that is empty or negative. -/
def attributeBits (slots : Params) : Int64 :=
  (slots.takeWhile (·.any (0 ≤ ·))).foldl
    (fun bits slot => bits ||| (1 : Int64) <<< min (slot.getD 0) (62 : Int64)) 0

/-- The distinct values of filled slots, in order. -/
def distinctValues (slots : Params) : List Int64 := (slots.filterMap id).foldl
  (fun found value => if value ∈ found then found else found ++ [value]) []

/-- The skill types that are effects. -/
def effectRules : List (Nat × EffectRule) :=
  [(1, bindRule .randomCards),
   (2, bindRule .attribute),
   (3, bindRule .typing),
   (4, .plain fun ps => .orbChange (ps.value 1) (ps.value 2) none none),
   (5, .plain fun _ => .blind none),
   (6, .plain fun _ => .dispel),
   (7, .plain fun ps => .recover .enemy (ps.value 1)),
   (8, .checked fun ps => (checkedAdd 100 (ps.value 1)).map (.enrage · 0)),
   (12, .plain fun ps => .orbChange (ps.value 1) jammerOrb none none),
   (13, randomOrbsRule jammerOrb),
   (14, bindRule .activeSkills),
   (15, .plain fun ps => .attack (ps.value 3) (ps.value 1) (ps.value 2)),
   (16, .plain fun _ => .inactivity),
   (17, enrageRule),
   (18, enrageRule),
   (19, enrageRule),
   (20, .plain fun ps => .statusShield (ps.value 1)),
   (39, .checked fun ps =>
     match ps.value? 2 with
     | some tenths => (checkedNeg tenths).map (.debuff .moveTimeFlat · (ps.value 1))
     | none => .ok (.debuff .moveTimePercent (ps.value 3) (ps.value 1))),
   (40, .plain fun _ => .endBattle),
   (46, .plain fun ps => .changeAttribute (distinctValues ((ps.drop 1).take 5))),
   (47, .plain fun ps => .preemptiveAttack (ps.value 2)),
   (48, attackAndOrbChangeRule),
   (50, .plain fun ps => .gravity (ps.value 1)),
   (52, .plain fun ps => .recover .enemyAlly (ps.value 1)),
   (53, .plain fun ps => .absorb .attribute (ps.value 3) (ps.value 1)),
   (54, bindRule .leaders),
   (55, .plain fun ps => .recover .player (ps.value 1)),
   (56, .plain fun ps => .orbChange (ps.value 1) poisonOrb none none),
   (60, randomOrbsRule poisonOrb),
   (61, randomOrbsRule mortalPoisonOrb),
   (62, .plain fun ps => .blind (ps.nonzero? 1)),
   (63, .plain fun ps => .bind .randomCards (ps.value 4) (ps.value 2) (ps.value 3) (ps.nonzero? 1)),
   (64, .plain fun ps => .orbChange anyOrb poisonOrb (some (ps.value 2)) (ps.nonzero? 1)),
   (65, bindRule .randomSubs),
   (66, .plain fun _ => .inactivity),
   (67, .plain fun ps => .absorb .combo (ps.value 3) (ps.value 1)),
   (68, .plain fun ps => .skyfall (ps.value 1) (ps.value 4) (ps.value 2) false),
   (69, .plain fun ps => .deathCry (ps.value 0)),
   (71, .plain fun ps => .voidShield (ps.value 3) (ps.value 1)),
   (72, .plain fun ps => .attributeResist (ps.value 1) (ps.value 2)),
   (73, .plain fun ps => .resolve (ps.value 1)),
   (74, .plain fun ps => .damageShield (ps.value 2) (ps.value 1)),
   (75, .plain fun ps => .leaderSwap (ps.value 1)),
   (76, lineSpawnRule .column),
   (77, linesSpawnRule .column),
   (78, lineSpawnRule .row),
   (79, linesSpawnRule .row),
   (81, .plain fun ps =>
     .orbSpawn .board [] (attributeBits (ps.drop 2)) 0 (ps.nonzero? 1)),
   (82, .plain fun _ => .attack 100 1 1),
   (84, .plain fun ps => .orbSpawn .board [] (ps.value 1) 0 none),
   (85, .plain fun ps => .orbSpawn .board [] (ps.value 2) 0 (ps.nonzero? 1)),
   (86, .plain fun ps => .recover .enemy (ps.value 1)),
   (87, .plain fun ps => .absorb .damage (ps.value 2) (ps.value 1)),
   (88, .plain fun ps => .bindAwoken (ps.value 1)),
   (89, .plain fun ps => .skillDelay (ps.value 2)),
   (92, .plain fun ps => .orbSpawn .random [] (ps.value 2) (ps.value 1) none),
   (94, .plain fun ps => .orbLock (ps.value 1) (ps.value 2)),
   (96, .plain fun ps => .skyfall (ps.value 1) (ps.value 4) (ps.value 2) true),
   (97, .plain fun ps => .stickyBlind (ps.value 1) (ps.value 2) (ps.value 3) []),
   (98, .plain fun ps => .stickyBlind (ps.value 1) 0 0 (ps.range 2 5)),
   (99, .plain fun ps => .orbSeal .column (ps.value 1) (ps.value 2)),
   (100, .plain fun ps => .orbSeal .row (ps.value 1) (ps.value 2)),
   (101, .plain fun _ => .fixedStart),
   (102, .plain fun ps => .orbSpawn .bombRandom [] 0 (ps.value 2) (ps.value? 14)),
   (103, .plain fun ps => .orbSpawn .bombFixed (ps.range 2 5) 0 0 (ps.value? 14)),
   (104, .plain fun ps => .cloud (ps.value 2) (ps.value 3) (ps.value 1) (ps.value? 14)),
   (105, .plain fun ps => .debuff .rcv (ps.value 2) (ps.value 1)),
   (106, .plain fun ps => .turnChangePassive (ps.value 1) (ps.value 2)),
   (107, .plain fun ps => .attributeBlock (ps.value 2) (ps.value 1)),
   (108, attackAndOrbChangeRule),
   (109, .plain fun ps => .spinners (ps.value 2) (ps.value 1) false),
   (110, .plain fun ps => .spinners (ps.value 2) (ps.value 1) true),
   (111, .plain fun ps =>
     match ps.value? 2 with
     | some value => .maxHpChange value true (ps.value 3)
     | none => .maxHpChange (ps.value 3) false (ps.value 3)),
   (112, .plain fun _ => .fixedTarget),
   (118, .plain fun ps => .typeResist (ps.value 1) (ps.value 2)),
   (119, .plain fun ps => .invulnerable true (ps.value 1)),
   (121, .plain fun _ => .invulnerable false 0),
   (122, .plain fun ps => .turnChange (ps.value 2)),
   (123, .plain fun ps => .invulnerable true (ps.value 1))]

/-- Makes the effect. -/
def EffectRule.apply (rule : EffectRule) (ps : Params) : Except Overflow Effect :=
  match rule with
  | plain make => .ok (make ps)
  | checked make => make ps

/-! ## Skill sets -/

/-- The type of a skill set used when the enemy dies. -/
def deathSkillSetType : Nat := 95

/-- The skill types that bundle the sub-skills of their record. -/
def skillSetTypes : List Nat := [83, deathSkillSetType]

end EnemyBehavior
