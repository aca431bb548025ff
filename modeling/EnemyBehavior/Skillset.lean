import EnemyBehavior.Action

/-!
# Skillsets

The flat description of how an enemy behaves at one level: its traits, its opening move, and
groups of actions by turn, by the number of enemies left, and by HP.
-/

namespace EnemyBehavior

/-! ## Groups -/

/-- Actions used on one turn, seen at an HP percentage. -/
structure TimedGroup where
  turn : UInt32
  hp : UInt32
  actions : List Action
deriving DecidableEq

/-- Actions used when a number of enemies remain, and those of the turn after if they differ. -/
structure EnemyCountGroup where
  count : UInt32
  actions : List Action
  followUp : Option (List Action)
deriving DecidableEq

/-- Actions used at or below an HP percentage. -/
structure HpGroup where
  ceiling : UInt32
  actions : List Action
deriving DecidableEq

/-! ## Skillsets -/

/-- All that is reported of an enemy at one level. -/
structure Skillset where
  level : UInt32
  /-- The traits of the enemy. -/
  baseAbilities : List Action
  /-- The opening move. -/
  preemptives : List Action
  /-- Turns before the enemy settles. -/
  timed : List TimedGroup
  /-- Turns of a steady cycle of several turns. -/
  repeating : List TimedGroup
  enemyCount : List EnemyCountGroup
  hp : List HpGroup
deriving DecidableEq

/-- Some action is not the plain attack. -/
def hasSkill (actions : List Action) : Bool := actions.any fun a => !a.kind.isDefaultAttack

namespace Skillset

/-- No group holds anything beyond the plain attack. -/
def isFunctionallyEmpty (s : Skillset) : Bool :=
  !(s.timed.any (hasSkill ·.actions) || s.repeating.any (hasSkill ·.actions)
    || s.enemyCount.any (fun g => hasSkill g.actions || g.followUp.any hasSkill)
    || s.hp.any (hasSkill ·.actions))

def groupCount (s : Skillset) : Nat :=
  s.timed.length + s.repeating.length + s.enemyCount.length + s.hp.length

def withoutGroups (s : Skillset) : Skillset :=
  { s with timed := [], repeating := [], enemyCount := [], hp := [] }

end Skillset

end EnemyBehavior
