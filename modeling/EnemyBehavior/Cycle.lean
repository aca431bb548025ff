import EnemyBehavior.Skillset
import EnemyBehavior.TurnMap

/-!
# Steady cycles

After some turns most enemies repeat themselves. Over the maps of successive turns, a cycle is a
range of turns that is followed by copies of itself as long as whole copies fit, at least one.
The first such range, by start and then by end, is the cycle of the enemy.

What a cycle leaves to report depends on its length. Of a cycle of one turn, the turns before it
are reported where they differ from it; of a longer one, its own turns are reported where they
differ among each other. The rest is steady behaviour.
-/

namespace EnemyBehavior

/-- A range of turns, counted from 0, the end excluded. -/
structure Cycle where
  start : Nat
  stop : Nat
deriving DecidableEq

/-- The behaviour that a group reports, with its HP percentage. -/
def TimedGroup.entry (g : TimedGroup) : HpEntry := (g.hp, g.actions)

namespace Cycle

def period (c : Cycle) : Nat := c.stop - c.start

def block (turns : List TurnMap) (first count : Nat) : List TurnMap := (turns.drop first).take count

def body (c : Cycle) (turns : List TurnMap) : List TurnMap := block turns c.start c.period

/-- How many whole copies of the cycle fit behind it. -/
def copies (c : Cycle) (turns : List TurnMap) : Nat := (turns.length - c.stop) / c.period

/-- At least one copy fits, and every whole copy that fits is there. -/
def repeats (c : Cycle) (turns : List TurnMap) : Bool :=
  0 < c.copies turns &&
    (List.range (c.copies turns)).all fun k =>
      block turns (c.stop + k * c.period) c.period == c.body turns

/-- All ranges of turns, by start and then by end. -/
def candidates (turns : List TurnMap) : List Cycle :=
  (List.range turns.length).flatMap fun start =>
    (List.range' (start + 1) (turns.length - (start + 1))).map (⟨start, ·⟩)

/-- The cycle that the turns settle into, if they do. -/
def find? (turns : List TurnMap) : Option Cycle :=
  (candidates turns).find? fun c => turns[c.start]? == turns[c.stop]? && c.repeats turns

/-! ## Groups -/

/-- The turn numbers that groups carry are counted from 1. -/
def turnNumber (index : Nat) : UInt32 := UInt32.ofNat (index + 1)

/-- The groups of a turn for the entries that `steady` does not cover. -/
def groupsOfTurn (steady : HpEntry → Bool) (turn : TurnMap) (index : Nat) : List TimedGroup :=
  (turn.entries.filter (!steady ·)).map fun e => ⟨turnNumber index, e.1, e.2⟩

/-- The groups of successive turns, the first of which has the given index. -/
def groupsFrom (steady : HpEntry → Bool) : (index : Nat) → List TurnMap → List TimedGroup
  | _, [] => []
  | index, turn :: turns => groupsOfTurn steady turn index ++ groupsFrom steady (index + 1) turns

/-- Before a cycle of one turn, the groups of the turns that differ from it. -/
def timedGroups (c : Cycle) (turns : List TurnMap) : List TimedGroup :=
  if c.period = 1 then
    groupsFrom (fun e => (turns[c.start]?).any (·.covers e)) 0 (turns.take c.start)
  else []

/-- In a cycle of several turns, the groups that are not the same on all of them. -/
def repeatingGroups (c : Cycle) (turns : List TurnMap) : List TimedGroup :=
  if c.period = 1 then []
  else groupsFrom (fun e => (c.body turns).all (·.covers e)) c.start (c.body turns)

/-- All groups that a cycle leaves to report. Groups of only one sort arise. -/
def groups (c : Cycle) (turns : List TurnMap) : List TimedGroup :=
  c.timedGroups turns ++ c.repeatingGroups turns

/-- The behaviours that are reported in groups, with their HP percentages. -/
def emitted (c : Cycle) (turns : List TurnMap) : List HpEntry :=
  (c.groups turns).map TimedGroup.entry

end Cycle

end EnemyBehavior
