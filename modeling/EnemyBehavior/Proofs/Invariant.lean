import EnemyBehavior.Proofs.InStep
import EnemyBehavior.Proofs.Provenance

/-!
# What holds throughout a simulation

A property of states that is kept by the nodes of the program, and by what happens to a state
between walks, holds at the start of every walk after the opening. The relation "the same state, and
it has the property" is kept likewise, so that simulations can be compared in the light of it.

## Main statements

* `Program.Keeps` — the property is kept
* `Program.IsSimulation.laterProbes_start` — then it holds at the start of every later walk
-/

namespace EnemyBehavior

variable {Holds : BattleState → Prop} {p : Program} {level : UInt32} {m : Simulation}

/-- The property is kept by the nodes of the program and by what happens to a state between
walks. -/
structure Program.Keeps (p : Program) (Holds : BattleState → Prop) : Prop where
  after : ∀ node ∈ p.toList, ∀ s, Holds s → Holds (node.after s)
  clearMarks : ∀ s, Holds s → Holds s.clearMarks
  withHp : ∀ s hp, Holds s → Holds { s with hp }
  withEnemies : ∀ s enemies, Holds s → Holds { s with enemies }
  endTurn : ∀ s next, Holds s → s.endTurn = .ok next → Holds next

/-- The two states are one and the same, and it has the property. -/
def BattleState.SameWith (Holds : BattleState → Prop) (s t : BattleState) : Prop := s = t ∧ Holds s

open BattleState (SameWith)

namespace Program

theorem Keeps.kept_sameWith (hkeeps : p.Keeps Holds) : BattleState.Kept (SameWith Holds) where
  hp := by
    rintro s _ ⟨rfl, -⟩
    rfl
  clearMarks := by
    rintro s _ ⟨rfl, h⟩
    exact ⟨rfl, hkeeps.clearMarks s h⟩
  withHp := by
    rintro s _ ⟨rfl, h⟩ hp
    exact ⟨rfl, hkeeps.withHp s hp h⟩
  withEnemies := by
    rintro s _ ⟨rfl, h⟩ enemies
    exact ⟨rfl, hkeeps.withEnemies s enemies h⟩
  endTurn := by
    rintro s _ s' t' ⟨rfl, h⟩ hs ht
    rw [hs] at ht
    cases ht
    exact ⟨rfl, hkeeps.endTurn s s' h hs⟩

theorem Keeps.keptWithMarks_sameWith (hkeeps : p.Keeps Holds) :
    BattleState.KeptWithMarks (SameWith Holds) where
  toKept := hkeeps.kept_sameWith
  isPreemptive := by
    rintro s _ ⟨rfl, -⟩
    rfl
  doPreemptive := by
    rintro s _ ⟨rfl, -⟩
    rfl

/-- **What is kept, and holds after the opening, holds at the start of every later walk.** -/
theorem IsSimulation.laterProbes_start (h : p.IsSimulation level m) (hkeeps : p.steady.Keeps Holds)
    (hstart : Holds (afterOpening (.start level) m.opening)) :
    ∀ q ∈ m.laterProbes, Holds q.start := by
  have hwalk : ∀ t, Holds t → Holds (p.steady.trace t).final := fun t ht =>
    (traceFrom_holds hkeeps.after maxSteps 1 [] t.clearMarks (hkeeps.clearMarks t ht)).1
  have hnext : ∀ s next, Holds s →
      (p.steady.turnRecord p.sampledHp s).carried.endTurn = .ok next → Holds next := by
    intro s next hs hnext
    rw [carried_of_head? p.head?_sampledHp] at hnext
    exact hkeeps.endTurn _ next (hwalk _ (hkeeps.withHp s fullHp hs)) hnext
  obtain ⟨hturns, hsettled⟩ := h.turns.invariant hnext hstart
  exact h.laterProbes_hold hwalk (fun hp _ t => hkeeps.withHp t hp)
    (fun n _ t => hkeeps.withEnemies t n) hturns hsettled

end Program

end EnemyBehavior
