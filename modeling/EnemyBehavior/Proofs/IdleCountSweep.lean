import EnemyBehavior.Proofs.CountSweep
import EnemyBehavior.Proofs.Phases
import EnemyBehavior.Proofs.View

/-!
# Leaving out the sweep over enemy counts

A simulation leaves out the sweep over enemy counts if no node branches on the number of enemies.
No other node reads that number and none writes it, so two walks that differ in it take the same
route. Every walk of the sweep then shows what its first walk has shown, and the sweep would find
nothing to report.

The simulation with the choice left open, `Program.simulateWith`, is the reference for what is lost
by leaving the sweep out.

## Main statements

* `Node.agree_differInEnemies` — only the branch on the number of enemies reads it
* `Program.groups_sweepEnemyCounts` — without that branch the sweep finds nothing
* `Program.simulateWith_eq` — the choice matters for the record of the sweep only
* `Program.enemy_count_sweep_finds_nothing` — so leaving it out loses nothing
-/

namespace EnemyBehavior

variable {p : Program} {s t : BattleState} {level : UInt32}

/-! ## The number of enemies in one step -/

/-- The states differ at most in the number of enemies left. -/
def BattleState.DifferInEnemies (s t : BattleState) : Prop := ∃ enemies, t = { s with enemies }

open BattleState (DifferInEnemies)

/-- **Only the branch on the number of enemies reads it**, and no node writes it. -/
theorem Node.agree_differInEnemies {node : Node} (h : node.isEnemyCountBranch = false) :
    Node.Agree DifferInEnemies node node := by
  rintro s _ ⟨enemies, rfl⟩
  have hgates : node.SameGates s s.level enemies := by
    refine ⟨fun _ _ => .rfl, fun _ _ _ _ => rfl, ?_⟩
    rintro count target rfl
    cases h
  obtain ⟨hflow, hafter⟩ := hgates.step
  refine ⟨hflow, enemies, hafter.trans ?_⟩
  rw [← (node.after_sameSituation s).level]

namespace Program

/-! ## The sweep -/

/-- If no number of enemies shows anything new, there is nothing to report. -/
theorem filterMap_group?_countRecords {seen : List (List Action)}
    (hseen : ∀ count, (p.probe { s with enemies := count }).actions ∈ seen) (counts : List UInt32) :
    (p.countRecords s counts seen).filterMap CountRecord.group? = [] := by
  induction counts with
  | nil => rfl
  | cons count counts ih =>
    rw [countRecords_cons, if_pos (hseen count)]
    exact ih

/-- **If walks do not depend on the number of enemies, the sweep over it finds nothing.** -/
theorem groups_sweepEnemyCounts (hp : p.Agree DifferInEnemies p) (s : BattleState) :
    (p.sweepEnemyCounts s).groups = [] := by
  refine filterMap_group?_countRecords (fun count => ?_) enemyCounts
  have hsame : (p.probe s).actions = (p.probe { s with enemies := count }).actions :=
    (trace_sameRoute hp ⟨count, rfl⟩).actions
  rw [← hsame]
  exact List.mem_singleton_self _

/-! ## Simulations with and without it -/

/-- **The choice matters for the record of the sweep only.** -/
theorem simulateWith_eq (p : Program) (countEnemies : Bool) (level : UInt32) :
    p.simulateWith countEnemies level = (p.simulate level).map fun m => { m with
      counts := if countEnemies then some (p.steady.sweepEnemyCounts m.settled) else none } := by
  unfold simulate simulateWith
  cases hturns : p.steady.sweepTurns p.sampledHp sweepTurnCount
      (afterOpening (.start level) (p.withoutPassives.probe (.start level))) with
  | error e =>
    simp only [hturns]
    rfl
  | ok r =>
    simp only [hturns]
    rfl

/-! ## Nothing is lost -/

section NoBranch

variable (hp : ∀ count target, .branchRemainingEnemies count target ∉ p.toList)
include hp

theorem isEnemyCountBranch_eq_false : ∀ node ∈ p.toList, node.isEnemyCountBranch = false := by
  intro node hnode
  cases node with
  | branchRemainingEnemies count target => exact absurd hnode (hp count target)
  | _ => rfl

theorem hasEnemyCountBranch_eq_false : p.hasEnemyCountBranch = false := by
  unfold hasEnemyCountBranch
  rw [List.any_eq_false]
  intro node hnode
  simp [isEnemyCountBranch_eq_false hp node hnode]

/-- All nodes agree with themselves, whatever the number of enemies. -/
theorem forall_agree_differInEnemies :
    ∀ node ∈ p.toList, Node.Agree DifferInEnemies node node :=
  fun node hnode => Node.agree_differInEnemies (isEnemyCountBranch_eq_false hp node hnode)

end NoBranch

/-- **Leaving out the sweep over enemy counts loses nothing** if no node branches on the number of
enemies. Walks from states that differ in it are told alike and leave states that differ in nothing
else. So the sweep would add no group, and the skillset is the one that is reported with it. -/
theorem enemy_count_sweep_finds_nothing (p : Program)
    (hp : ∀ count target, .branchRemainingEnemies count target ∉ p.toList) :
    (∀ s t, DifferInEnemies s t →
      (p.walk s).1 = (p.walk t).1 ∧ DifferInEnemies (p.walk s).2 (p.walk t).2) ∧
      ∀ level, ∃ m m' sweep,
        p.simulate level = .ok m ∧ m.counts = none ∧
          p.simulateWith true level = .ok m' ∧ m'.counts = some sweep ∧ sweep.groups = [] ∧
          m.skillset = m'.skillset := by
  constructor
  · rintro s _ ⟨enemies, rfl⟩
    exact walk_eq_of_agree (agree_self (forall_agree_differInEnemies hp)) ⟨enemies, rfl⟩
  · intro level
    obtain ⟨m, hm⟩ := p.exists_simulate level
    have hsim := simulate_eq_ok_iff.mp hm
    have hcounts : m.counts = none := by
      rw [hsim.counts, hasEnemyCountBranch_eq_false hp]
      rfl
    have hsteady : p.steady.Agree DifferInEnemies p.steady :=
      agree_self (forall_mem_steady (Node.agree_noOp _) (forall_agree_differInEnemies hp))
    have hgroups : (p.steady.sweepEnemyCounts m.settled).groups = [] :=
      groups_sweepEnemyCounts hsteady m.settled
    refine ⟨m, { m with counts := some (p.steady.sweepEnemyCounts m.settled) },
      p.steady.sweepEnemyCounts m.settled, hm, hcounts, ?_, rfl, hgroups, ?_⟩
    · rw [simulateWith_eq, hm]
      rfl
    · have hdraft : m.draft
          = { m with counts := some (p.steady.sweepEnemyCounts m.settled) }.draft := by
        unfold Simulation.draft
        rw [hcounts, Option.map_some, hgroups]
        rfl
      exact congrArg Skillset.clean hdraft

/-- The enemy dispels once, and deals gravity from then on. -/
def dispelOnce : Program where
  nodes := #[
    .action (.mk 1 (.effect .dispel) (some ⟨100, 0, none, some 1⟩)),
    .action (.mk 2 (.effect (.gravity 25)) none)]
  staysWithin := by decide

/-- Whether or not numbers of enemies are tried, this enemy is described alike. -/
theorem enemy_count_sweep_finds_nothing_of_dispelOnce :
    (∀ count target, .branchRemainingEnemies count target ∉ dispelOnce.toList) ∧
      ∃ m m', dispelOnce.simulate 3 = .ok m ∧ dispelOnce.simulateWith true 3 = .ok m' ∧
        m.skillset = m'.skillset := by
  have hp : ∀ count target, .branchRemainingEnemies count target ∉ dispelOnce.toList := by
    simp [dispelOnce, toList]
  obtain ⟨m, m', -, hm, -, hm', -, -, hsame⟩ := (enemy_count_sweep_finds_nothing dispelOnce hp).2 3
  exact ⟨hp, m, m', hm, hm', hsame⟩

end Program

end EnemyBehavior
