/-!
# Actions

What an enemy does on its turn: an `Action` is a numbered skill with a kind and, for skills that
are not always used, the `Condition` under which it is picked.

Almost every kind is an `Effect`, a flat record of parameters. The one kind that is not flat is a
skill set, which bundles further actions; so `Action` and `ActionKind` are mutually inductive, and
all recursion over actions goes through skill sets.

Passive effects (resistances, resolve, …) are traits of the enemy. They are listed apart and
never take part in a turn.
-/

namespace EnemyBehavior

/-! ## Trigger rules -/

/-- The rule under which an action that has been reached is picked. -/
structure Condition where
  /-- Chance in percent that the action is picked; from 100 on it always fires and ends the turn. -/
  triggerChance : UInt32
  /-- Secondary chance, kept as data. -/
  randomChance : UInt32
  /-- The action applies only while the HP percentage is below this one. -/
  hpThreshold : Option UInt32
  /-- Bits that the action uses up when it fires; it needs all of them unused. -/
  oneTime : Option UInt64
deriving DecidableEq

/-! ## Flat effects -/

/-- Whom a bind hits. -/
inductive BindTarget where
  | randomCards | attribute | typing | activeSkills | leaders | randomSubs
deriving DecidableEq

/-- Whom a recovery heals. -/
inductive RecoverTarget where
  | enemy | enemyAlly | player
deriving DecidableEq

/-- What a debuff lowers: move time in tenths of a second, move time in percent, or recovery. -/
inductive DebuffStat where
  | moveTimeFlat | moveTimePercent | rcv
deriving DecidableEq

/-- Which hits an absorb shield takes up. -/
inductive AbsorbSource where
  | attribute | combo | damage
deriving DecidableEq

/-- Where on the board orbs or bombs appear. -/
inductive SpawnLayout where
  | row | column | random | board | bombRandom | bombFixed
deriving DecidableEq

/-- Which lines of the board are sealed. -/
inductive SealLayout where
  | row | column
deriving DecidableEq

/-- The kinds of action that contain no further action. -/
inductive Effect where
  | defaultAttack
  | attack (multiplier minHits maxHits : Int64)
  | preemptiveAttack (multiplier : Int64)
  | bind (target : BindTarget) (selector minTurns maxTurns : Int64)
      (attackMultiplier : Option Int64)
  | bindAwoken (turns : Int64)
  | orbChange (source result : Int64) (randomCount attackMultiplier : Option Int64)
  | blind (attackMultiplier : Option Int64)
  | stickyBlind (turns minCount maxCount : Int64) (positions : List Int64)
  | dispel
  | statusShield (turns : Int64)
  | recover (target : RecoverTarget) (amount : Int64)
  | enrage (multiplier turns : Int64)
  | debuff (stat : DebuffStat) (amount turns : Int64)
  | inactivity
  | endBattle
  | deathCry (message : Int64)
  | changeAttribute (attributes : List Int64)
  | gravity (percent : Int64)
  | absorb (source : AbsorbSource) (value turns : Int64)
  | voidShield (threshold turns : Int64)
  | damageShield (percent turns : Int64)
  | invulnerable (enabled : Bool) (turns : Int64)
  | skyfall (attributes chance turns : Int64) (locked : Bool)
  | leaderSwap (turns : Int64)
  | orbSpawn (layout : SpawnLayout) (positions : List Int64) (attributes count : Int64)
      (attackMultiplier : Option Int64)
  | orbLock (attributes count : Int64)
  | orbSeal (layout : SealLayout) (positions turns : Int64)
  | cloud (width height turns : Int64) (attackMultiplier : Option Int64)
  | skillDelay (turns : Int64)
  | fixedStart
  | attributeBlock (attributes turns : Int64)
  | spinners (speed turns : Int64) (fixed : Bool)
  | maxHpChange (value : Int64) (percent : Bool) (turns : Int64)
  | fixedTarget
  | turnChange (turnCounter : Int64)
  /-- A countdown node that keeps the enemy from acting, with the turns it still has to wait. -/
  | countdown (remaining : Int64)
  | attributeResist (attributes percent : Int64)
  | resolve (hpThreshold : Int64)
  | turnChangePassive (hpThreshold turnCounter : Int64)
  | typeResist (types percent : Int64)
  /-- A skill type that no rule of the decoder covers. -/
  | unknown (skillType : UInt32)
deriving DecidableEq

/-- Traits that hold throughout the battle. -/
def Effect.isPassive : Effect → Bool
  | .attributeResist .. | .resolve .. | .turnChangePassive .. | .typeResist .. => true
  | _ => false

/-! ## Actions and skill sets -/

mutual

/-- A skill, what it does, and when it is picked. -/
inductive Action where
  | mk (skillId : UInt32) (kind : ActionKind) (condition : Option Condition)

/-- What an action does: one effect, or several actions in a row. -/
inductive ActionKind where
  | effect (effect : Effect)
  | skillSet (skills : List Action) (onDeath : Bool)

end

/-! ## Equality of actions is decidable -/

mutual

def Action.decEq : (a b : Action) → Decidable (a = b)
  | .mk i k c, .mk i' k' c' =>
    match ActionKind.decEq k k' with
    | .isTrue hk =>
      if h : i = i' ∧ c = c' then .isTrue (by rw [h.1, h.2, hk])
      else .isFalse (by rintro ⟨⟩; exact h ⟨rfl, rfl⟩)
    | .isFalse hk => .isFalse (by rintro ⟨⟩; exact hk rfl)
termination_by structural a => a

def ActionKind.decEq : (a b : ActionKind) → Decidable (a = b)
  | .effect e, .effect e' =>
    if h : e = e' then .isTrue (by rw [h]) else .isFalse (by rintro ⟨⟩; exact h rfl)
  | .skillSet s d, .skillSet s' d' =>
    match Action.decEqList s s' with
    | .isTrue hs =>
      if h : d = d' then .isTrue (by rw [h, hs]) else .isFalse (by rintro ⟨⟩; exact h rfl)
    | .isFalse hs => .isFalse (by rintro ⟨⟩; exact hs rfl)
  | .effect _, .skillSet _ _ => .isFalse (by rintro ⟨⟩)
  | .skillSet _ _, .effect _ => .isFalse (by rintro ⟨⟩)
termination_by structural a => a

def Action.decEqList : (a b : List Action) → Decidable (a = b)
  | [], [] => .isTrue rfl
  | x :: xs, y :: ys =>
    match Action.decEq x y, Action.decEqList xs ys with
    | .isTrue hx, .isTrue hxs => .isTrue (by rw [hx, hxs])
    | .isFalse hx, _ => .isFalse (by rintro ⟨⟩; exact hx rfl)
    | _, .isFalse hxs => .isFalse (by rintro ⟨⟩; exact hxs rfl)
  | [], _ :: _ => .isFalse (by rintro ⟨⟩)
  | _ :: _, [] => .isFalse (by rintro ⟨⟩)
termination_by structural a => a

end

instance : DecidableEq Action := Action.decEq
instance : DecidableEq ActionKind := ActionKind.decEq

/-! ## Parts of an action -/

namespace ActionKind

/-- Traits that hold throughout the battle. A skill set is never one. -/
def isPassive : ActionKind → Bool
  | effect e => e.isPassive
  | skillSet .. => false

def isDefaultAttack (kind : ActionKind) : Bool := kind == .effect .defaultAttack

end ActionKind

namespace Action

def skillId : Action → UInt32
  | mk id _ _ => id

/-- What the action does. -/
def kind : Action → ActionKind
  | mk _ kind _ => kind

/-- When the action is picked. Without a condition it always is. -/
def condition : Action → Option Condition
  | mk _ _ condition => condition

/-- The plain attack that stands for a turn on which no skill is used. -/
def defaultAttack : Action := mk 0 (.effect .defaultAttack) none

/-- The report of a countdown that still has `remaining` turns to wait. -/
def countdown (remaining : Int64) : Action := mk 0 (.effect (.countdown remaining)) none

/-- The HP percentage below which the action is available, if it has one. -/
def hpThreshold? (a : Action) : Option UInt32 := a.condition.bind (·.hpThreshold)

/-- The bits the action uses up, if it is a one-time action. -/
def oneTime? (a : Action) : Option UInt64 := a.condition.bind (·.oneTime)

/-- Traits that hold throughout the battle. -/
def isPassive (a : Action) : Bool := a.kind.isPassive

end Action

/-! ## Unknown skill types -/

mutual

/-- The unknown skill types inside an action, skill sets included, in order of appearance. -/
def Action.unknownTypes : Action → List UInt32
  | .mk _ kind _ => kind.unknownTypes
termination_by structural a => a

/-- The unknown skill types inside a kind of action. -/
def ActionKind.unknownTypes : ActionKind → List UInt32
  | .effect (.unknown t) => [t]
  | .effect _ => []
  | .skillSet skills _ => Action.unknownTypesOfList skills
termination_by structural a => a

/-- The unknown skill types inside the actions of a skill set. -/
def Action.unknownTypesOfList : List Action → List UInt32
  | [] => []
  | a :: as => a.unknownTypes ++ Action.unknownTypesOfList as
termination_by structural a => a

end

end EnemyBehavior
