import EnemyBehavior.Proofs.OneTime
import EnemyBehavior.Proofs.TurnSweep

/-!
# One state through many walks

`BattleState.play` takes one state through any sequence of walks, of whatever programs, and ends of
turns. The state is never set back to an earlier copy, and that is all it needs for one-time actions
to fire once: the register of one-time bits is handed on from walk to walk, and the end of a turn
leaves it alone.

## Main statements

* `BattleState.exists_play_iff` — playing fails only if the turns run out of numbers
* `BattleState.usesUp_of_play` — the visits of all walks hand the register on
* `BattleState.one_time_actions_fire_once` — one-time actions while one state is played
-/

namespace EnemyBehavior

/-- What is done with a state between two copies of it. -/
inductive Move where
  | walk (p : Program)
  | endTurn

/-- How many turns end. -/
def endedTurns : List Move → Nat
  | [] => 0
  | .walk _ :: moves => endedTurns moves
  | .endTurn :: moves => endedTurns moves + 1

namespace BattleState

/-- Makes the moves one after another; gives the walks and the state that is left. -/
def play : BattleState → List Move → Except Overflow (List Trace × BattleState)
  | s, [] => .ok ([], s)
  | s, .walk p :: moves => do
    let (traces, final) ← play (p.trace s).final moves
    return (p.trace s :: traces, final)
  | s, .endTurn :: moves => do
    let next ← s.endTurn
    play next moves

variable {p : Program} {s final : BattleState} {moves : List Move} {traces : List Trace}

/-! ## One move -/

theorem play_walk_eq_ok_iff :
    s.play (.walk p :: moves) = .ok (traces, final) ↔
      ∃ rest, (p.trace s).final.play moves = .ok (rest, final) ∧ traces = p.trace s :: rest := by
  simp only [play, bind_eq_ok_iff]
  constructor
  · rintro ⟨⟨rest, _⟩, hrest, h⟩
    cases h
    exact ⟨rest, hrest, rfl⟩
  · rintro ⟨rest, hrest, rfl⟩
    exact ⟨(rest, final), hrest, rfl⟩

theorem play_endTurn_eq_ok_iff {r : List Trace × BattleState} :
    s.play (.endTurn :: moves) = .ok r ↔
      ∃ next, s.endTurn = .ok next ∧ next.play moves = .ok r := by
  rw [play, bind_eq_ok_iff]

/-! ## All moves -/

/-- **Playing fails only if the turns run out of numbers.** -/
theorem exists_play_iff :
    (∃ r, s.play moves = .ok r) ↔ s.turn.toNat + endedTurns moves < UInt32.size := by
  induction moves generalizing s with
  | nil =>
    refine iff_of_true ⟨_, rfl⟩ ?_
    exact s.turn.toNat_lt
  | cons move moves ih =>
    cases move with
    | walk p =>
      have hturn : (p.trace s).final.turn = s.turn := (p.final_sameSituation s).turn
      rw [endedTurns, ← hturn, ← ih]
      constructor
      · rintro ⟨⟨traces, final⟩, h⟩
        obtain ⟨rest, hrest, -⟩ := play_walk_eq_ok_iff.mp h
        exact ⟨_, hrest⟩
      · rintro ⟨⟨rest, final⟩, hrest⟩
        exact ⟨_, play_walk_eq_ok_iff.mpr ⟨rest, hrest, rfl⟩⟩
    | endTurn =>
      rw [endedTurns]
      constructor
      · rintro ⟨r, h⟩
        obtain ⟨next, hnext, hrest⟩ := play_endTurn_eq_ok_iff.mp h
        have hlater := ih.mp ⟨r, hrest⟩
        rw [toNat_turn_of_endTurn hnext] at hlater
        omega
      · intro h
        obtain ⟨next, hnext⟩ := exists_endTurn (s := s) (by omega)
        have hturn := toNat_turn_of_endTurn hnext
        have hlater : next.turn.toNat + endedTurns moves < UInt32.size := by omega
        obtain ⟨r, hrest⟩ := ih.mpr hlater
        exact ⟨r, play_endTurn_eq_ok_iff.mpr ⟨next, hnext, hrest⟩⟩

/-- **The visits of all walks hand the register on.** -/
theorem usesUp_of_play (h : s.play moves = .ok (traces, final)) :
    UsesUp s.oneTimeFlags (traces.flatMap Trace.visits) final.oneTimeFlags := by
  induction moves generalizing s traces with
  | nil =>
    cases h
    exact .done _
  | cons move moves ih =>
    cases move with
    | walk p =>
      obtain ⟨rest, hrest, rfl⟩ := play_walk_eq_ok_iff.mp h
      rw [List.flatMap_cons]
      exact (p.trace_usesUp s).append (ih hrest)
    | endTurn =>
      obtain ⟨next, hnext, hrest⟩ := play_endTurn_eq_ok_iff.mp h
      rw [← endTurn_oneTimeFlags hnext]
      exact ih hrest

/-- The actions that fire, walk by walk, are those that fire at the visits. -/
theorem flatMap_emitted (traces : List Trace) :
    traces.flatMap Trace.emitted
      = (traces.flatMap Trace.visits).filterMap (·.flow.emitted?) := by
  rw [List.filterMap_flatMap]
  rfl

/-- Among actions with disjoint masks, one that uses up a bit stands at most once. -/
theorem count_le_one {actions : List Action} {a : Action} {mask : UInt64}
    (h : actions.Pairwise Action.MasksDisjoint) (hmask : a.oneTime? = some mask) (hne : mask ≠ 0) :
    actions.count a ≤ 1 := by
  refine Nat.not_lt.mp fun hcount => ?_
  have htwice : (List.replicate 2 a).Sublist actions := List.replicate_sublist_iff.mpr hcount
  have hself : a.MasksDisjoint a := List.pairwise_pair.mp (h.sublist htwice)
  exact Action.not_masksDisjoint_self hmask hne hself

/-- **One-time actions fire once.** As long as a state is not set back to an earlier copy, through
whatever walks and ends of turns, the register never loses a bit, the masks of any two firings are
disjoint, and an action that uses up a bit fires at most once. Playing goes on while the turns have
numbers, and no walk touches the situation. -/
theorem one_time_actions_fire_once (s : BattleState) (moves : List Move) :
    ((∃ r, s.play moves = .ok r) ↔ s.turn.toNat + endedTurns moves < UInt32.size) ∧
      (∀ traces final, s.play moves = .ok (traces, final) →
        (s.oneTimeFlags :: (traces.flatMap Trace.visits).map (·.after.oneTimeFlags)
            ++ [final.oneTimeFlags]).Pairwise BitsWithin ∧
          (traces.flatMap Trace.emitted).Pairwise Action.MasksDisjoint ∧
          ∀ a mask, a.oneTime? = some mask → mask ≠ 0 →
            (traces.flatMap Trace.emitted).count a ≤ 1) ∧
      ∀ (p : Program) (t : BattleState), (p.walk t).2.SameSituation t := by
  refine ⟨exists_play_iff, ?_, fun p t => p.final_sameSituation t⟩
  intro traces final h
  have hchain := usesUp_of_play h
  have hdisjoint : (traces.flatMap Trace.emitted).Pairwise Action.MasksDisjoint := by
    rw [flatMap_emitted]
    exact hchain.pairwise_emitted
  exact ⟨hchain.registers, hdisjoint, fun a mask hmask hne => count_le_one hdisjoint hmask hne⟩

end BattleState

end EnemyBehavior
