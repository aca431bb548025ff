import EnemyBehavior.Distinct
import EnemyBehavior.Skillset

/-!
# Cleaning up a skillset

A skillset that holds nothing but plain attacks loses its groups. Any other goes through four
steps.

1. **Relocation.** An action gated on an HP threshold belongs into the HP group for that
   threshold. Actions found elsewhere are taken out and filed there, each once.
2. **Order.** HP groups are sorted by descending ceiling; groups of equal ceiling keep their order.
3. **Standing movesets.** The actions of an HP group that are neither gated nor one-time are its
   standing moveset. A moveset that only repeats the one above is left out.
4. Empty groups are dropped.
-/

namespace EnemyBehavior

/-! ## Relocation -/

/-- The action is gated on another threshold than `key`. -/
def Action.isMisplaced (key : UInt32) (a : Action) : Bool := a.hpThreshold?.any (· != key)

def placedActions (key : UInt32) (actions : List Action) : List Action :=
  actions.filter (!·.isMisplaced key)

def misplacedActions (key : UInt32) (actions : List Action) : List Action :=
  actions.filter (·.isMisplaced key)

def TimedGroup.placed (g : TimedGroup) : TimedGroup :=
  { g with actions := placedActions g.hp g.actions }

def HpGroup.placed (g : HpGroup) : HpGroup :=
  { g with actions := placedActions g.ceiling g.actions }

/-- All misplaced actions of a skillset, each once, in the order in which they are found. -/
def Skillset.misplaced (s : Skillset) : List Action :=
  distinctOn id [] <|
    s.timed.flatMap (fun g => misplacedActions g.hp g.actions)
      ++ s.repeating.flatMap (fun g => misplacedActions g.hp g.actions)
      ++ s.hp.flatMap (fun g => misplacedActions g.ceiling g.actions)

/-- Files an action into the first group with the ceiling, unless it is there already. -/
def fileUnder (ceiling : UInt32) (a : Action) : List HpGroup → List HpGroup
  | [] => [⟨ceiling, [a]⟩]
  | g :: gs =>
    if g.ceiling = ceiling then
      (if a ∈ g.actions then g else { g with actions := g.actions ++ [a] }) :: gs
    else g :: fileUnder ceiling a gs

/-- Files a gated action under its own threshold. -/
def fileAction (groups : List HpGroup) (a : Action) : List HpGroup :=
  match a.hpThreshold? with
  | some threshold => fileUnder threshold a groups
  | none => groups

/-- The HP groups once every gated action stands under its own threshold. -/
def Skillset.relocated (s : Skillset) : List HpGroup :=
  s.misplaced.foldl fileAction (s.hp.map HpGroup.placed)

/-! ## Order -/

/-- Puts a group in front of the first group whose ceiling is not above its own. -/
def insertByCeiling (g : HpGroup) : List HpGroup → List HpGroup
  | [] => [g]
  | h :: hs => if g.ceiling < h.ceiling then h :: insertByCeiling g hs else g :: h :: hs

/-- Sorts groups by descending ceiling; groups of equal ceiling keep their order. -/
def sortByCeiling : List HpGroup → List HpGroup
  | [] => []
  | g :: gs => insertByCeiling g (sortByCeiling gs)

/-! ## Standing movesets -/

/-- The action has neither an HP gate nor a one-time gate. -/
def Action.isStanding (a : Action) : Bool := a.hpThreshold?.isNone && a.oneTime?.isNone

def HpGroup.moveset (g : HpGroup) : List Action := g.actions.filter Action.isStanding

/-- Leaves out standing movesets that repeat `current`, the last one reported above. -/
def dropRepeatedMovesets : (current : List Action) → List HpGroup → List HpGroup
  | _, [] => []
  | current, g :: gs =>
    if g.moveset = current then
      -- what is left are gated and one-time actions
      { g with actions := g.actions.filter (· ∉ current) } :: dropRepeatedMovesets current gs
    else if g.moveset = [] then g :: dropRepeatedMovesets current gs
    else g :: dropRepeatedMovesets g.moveset gs

/-! ## All steps -/

namespace EnemyCountGroup

/-- The group says nothing. -/
def isVoid (g : EnemyCountGroup) : Bool := g.actions.isEmpty && g.followUp.isNone

end EnemyCountGroup

/-- Files gated actions under their thresholds, reports each standing moveset once, and drops what
says nothing. -/
def Skillset.clean (s : Skillset) : Skillset :=
  if s.isFunctionallyEmpty then s.withoutGroups
  else
    { s with
      timed := (s.timed.map TimedGroup.placed).filter (!·.actions.isEmpty)
      repeating := (s.repeating.map TimedGroup.placed).filter (!·.actions.isEmpty)
      enemyCount := s.enemyCount.filter (!·.isVoid)
      hp := (dropRepeatedMovesets [] (sortByCeiling s.relocated)).filter (!·.actions.isEmpty) }

end EnemyBehavior
