import EnemyBehavior.Skillset
import EnemyBehavior.Walk

/-!
# The sweep over enemy counts

How the enemy behaves when few enemies remain. The count goes down from `firstEnemyCount` to 1,
each count on its own copy of one state. A behaviour is reported for the highest count that shows
it; the behaviour with all enemies alive is known beforehand and not reported.

A behaviour that is reported is followed by a second walk on the same copy, because one-time
actions give way to something else on the next turn.
-/

namespace EnemyBehavior

/-- The highest number of remaining enemies that is tried. -/
def firstEnemyCount : Nat := 6

/-- The numbers of remaining enemies that are tried, descending. -/
def enemyCounts : List UInt32 := (List.range firstEnemyCount).reverse.map fun i => .ofNat (i + 1)

/-- The walks made with one number of enemies. -/
structure CountRecord where
  count : UInt32
  first : Probe
  /-- The walk after the first, made if the first showed something new. -/
  second : Option Probe
deriving DecidableEq

namespace CountRecord

/-- The group for a record that showed something new. -/
def group? (r : CountRecord) : Option EnemyCountGroup :=
  r.second.map fun second =>
    { count := r.count
      actions := r.first.actions
      followUp := if second.actions = r.first.actions then none else some second.actions }

/-- The walks of the record, in order. -/
def probes (r : CountRecord) : List Probe := r.first :: r.second.toList

end CountRecord

/-- A sweep over enemy counts. -/
structure CountSweep where
  /-- The walk with all enemies alive. -/
  baseline : Probe
  records : List CountRecord
deriving DecidableEq

namespace CountSweep

/-- The groups that are reported, by descending count. -/
def groups (c : CountSweep) : List EnemyCountGroup := c.records.filterMap CountRecord.group?

/-- All walks of the sweep, in order. -/
def probes (c : CountSweep) : List Probe := c.baseline :: c.records.flatMap CountRecord.probes

end CountSweep

namespace Program

/-- Walks the program for each count, each time from `s`; `seen` holds the behaviours met so far. -/
def countRecords (p : Program) (s : BattleState) :
    (counts : List UInt32) → (seen : List (List Action)) → List CountRecord
  | [], _ => []
  | count :: counts, seen =>
    let first := p.probe { s with enemies := count }
    if first.actions ∈ seen then
      ⟨count, first, none⟩ :: p.countRecords s counts seen
    else
      -- the second walk goes on with what the first has left
      let second := p.probe first.final
      ⟨count, first, some second⟩
        :: p.countRecords s counts (second.actions :: first.actions :: seen)

def sweepEnemyCounts (p : Program) (s : BattleState) : CountSweep :=
  let baseline := p.probe s
  ⟨baseline, p.countRecords s enemyCounts [baseline.actions]⟩

end Program

end EnemyBehavior
