import EnemyBehavior.Proofs.Cleaning
import EnemyBehavior.Proofs.Phases

/-!
# What is reported of the steady cycle

The groups of a cycle leave out what all of its turns do: that is steady behaviour, for the HP sweep
to find. But the sweep does not walk from the states of the cycle. It starts from the state after
the last turn and hands one state from walk to walk, so it can miss what the turns have shown.

Here it is said exactly what is reported: the groups of the cycle and the walks of the HP sweep,
and nothing gets lost between them and the skillset. What one turn of the cycle lacks is in a group,
so whether a cycle is reported in full depends only on its common entries.

## Main statements

* `Simulation.reports_iff` — a skill is reported if a group or a walk of the HP sweep has it
* `Simulation.reports_of_not_common` — what some turn of the cycle lacks is reported
* `Program.steady_state_reported_iff` — the cycles that are reported in full
* `Program.steady_state_lost` — a cycle that is not
-/

namespace EnemyBehavior

variable {p : Program} {level : UInt32} {m : Simulation} {c : Cycle} {a : Action}

namespace Simulation

/-! ## From the walks to the draft -/

theorem mem_hpGroups_iff {g : HpGroup} :
    g ∈ m.hpGroups ↔
      ∃ r ∈ m.hp, g.ceiling = r.hp ∧ g.actions ∈ r.freshActions ∧
        (r.hp, g.actions) ∉ m.emitted := by
  unfold hpGroups
  simp only [List.mem_flatMap, HpRecord.mem_groups]

/-- What is emitted stands in the groups for turns. -/
theorem mem_emitted_iff {e : HpEntry} :
    e ∈ m.emitted ↔ ∃ g ∈ m.timedGroups ++ m.repeatingGroups, g.entry = e := by
  rw [timed_append_repeating]
  unfold emitted
  cases m.cycle? with
  | none => simp
  | some c => exact List.mem_map

/-- What the HP sweep shows is in an HP group, unless a group for turns has it. -/
theorem draft_reports_of_probe (h : p.IsSimulation level m) {q : Probe}
    (hq : q ∈ m.hp.flatMap HpRecord.probes) (ha : a ∈ q.actions) : m.draft.Reports a := by
  rw [h.hp] at hq
  obtain ⟨r, hr, hfresh⟩ := Program.mem_freshActions_sweepHp_iff.mpr ⟨q, hq, rfl⟩
  rw [← h.hp] at hr
  by_cases hem : (r.hp, q.actions) ∈ m.emitted
  · obtain ⟨g, hg, hentry⟩ := mem_emitted_iff.mp hem
    have hactions : g.actions = q.actions := congrArg Prod.snd hentry
    exact .inl ⟨g, hg, hactions ▸ ha⟩
  · have hgroup : (⟨r.hp, q.actions⟩ : HpGroup) ∈ m.hpGroups :=
      mem_hpGroups_iff.mpr ⟨r, hr, rfl, hfresh, hem⟩
    exact .inr (mem_groupActions.mpr ⟨_, hgroup, ha⟩)

theorem draft_reports_iff (h : p.IsSimulation level m) :
    m.draft.Reports a ↔
      (∃ g ∈ m.timedGroups ++ m.repeatingGroups, a ∈ g.actions) ∨
        ∃ q ∈ m.hp.flatMap HpRecord.probes, a ∈ q.actions := by
  constructor
  · rintro (hturns | ha)
    · exact .inl hturns
    · obtain ⟨g, hg, ha⟩ := mem_groupActions.mp ha
      obtain ⟨r, hr, -, hfresh, -⟩ := mem_hpGroups_iff.mp hg
      obtain ⟨q, hq, hactions⟩ := HpRecord.exists_probe_of_mem_freshActions hfresh
      exact .inr ⟨q, List.mem_flatMap.mpr ⟨r, hr, hq⟩, hactions ▸ ha⟩
  · rintro (hturns | ⟨q, hq, ha⟩)
    · exact .inl hturns
    · exact draft_reports_of_probe h hq ha

/-! ## From the draft to the skillset -/

/-- **A skill is reported exactly if a group for turns or a walk of the HP sweep has it.** -/
theorem reports_iff (h : p.IsSimulation level m) (ha : a.kind.isDefaultAttack = false) :
    m.skillset.Reports a ↔
      (∃ g ∈ m.timedGroups ++ m.repeatingGroups, a ∈ g.actions) ∨
        ∃ q ∈ m.hp.flatMap HpRecord.probes, a ∈ q.actions :=
  (Skillset.reports_clean_iff_of_skill ha).trans (draft_reports_iff h)

theorem timed_append_repeating_of_cycle (hc : m.cycle? = some c) :
    m.timedGroups ++ m.repeatingGroups = c.groups m.turnMaps := by
  rw [timed_append_repeating, hc]
  rfl

/-- **What some turn of the cycle lacks is reported.** -/
theorem reports_of_not_common (h : p.IsSimulation level m) (hc : m.cycle? = some c)
    (ha : a.kind.isDefaultAttack = false) {turn turn' : TurnMap} {e : HpEntry}
    (hturn : turn ∈ c.body m.turnMaps) (he : e ∈ turn.entries) (hmem : a ∈ e.2)
    (hturn' : turn' ∈ c.body m.turnMaps) (he' : e ∉ turn'.entries) : m.skillset.Reports a := by
  obtain ⟨g, hg, rfl⟩ := Cycle.exists_group_of_not_everywhere hturn he hturn' he'
  rw [reports_iff h ha, timed_append_repeating_of_cycle hc]
  exact .inl ⟨g, hg, hmem⟩

/-- What the enemy does at full HP on the turn after the sweep is reported: there the HP sweep
begins. -/
theorem reports_of_next_turn (h : p.IsSimulation level m) (ha : a.kind.isDefaultAttack = false)
    (hmem : a ∈ p.steady.actionsAt m.settled fullHp) : m.skillset.Reports a := by
  obtain ⟨rest, hrest⟩ := List.head?_eq_some_iff.mp p.head?_sampledHp
  have hfirst := p.steady.probe_mem_sweepHp fullHp rest m.settled
  rw [← hrest, ← h.hp] at hfirst
  exact (reports_iff h ha).mpr (.inr ⟨_, hfirst, hmem⟩)

end Simulation

/-! ## The steady state -/

namespace Program

/-- **A cycle is reported in full exactly if its common entries are found again.** Every skill that
some turn of the cycle uses is reported if and only if each skill in an entry that all turns of the
cycle share is in a group of the cycle, or comes up in a walk of the HP sweep from the state after
the last turn. -/
theorem steady_state_reported_iff (p : Program) (level : UInt32) :
    ∃ m, p.simulate level = .ok m ∧
      (∀ a ∈ p.steady.actionsAt m.settled fullHp,
        a.kind.isDefaultAttack = false → m.skillset.Reports a) ∧
      ∀ c, m.cycle? = some c →
        ((∀ turn ∈ c.body m.turnMaps, ∀ e ∈ turn.entries, ∀ a ∈ e.2,
            a.kind.isDefaultAttack = false → m.skillset.Reports a) ↔
          ∀ turn ∈ c.body m.turnMaps, ∀ e ∈ turn.entries,
            (∀ turn' ∈ c.body m.turnMaps, e ∈ turn'.entries) →
            ∀ a ∈ e.2, a.kind.isDefaultAttack = false →
              (∃ g ∈ c.groups m.turnMaps, a ∈ g.actions) ∨
                ∃ q ∈ (p.steady.sweepHp p.sampledHp m.settled).flatMap HpRecord.probes,
                  a ∈ q.actions) := by
  obtain ⟨m, hm⟩ := p.exists_simulate level
  have hsim := simulate_eq_ok_iff.mp hm
  refine ⟨m, hm, fun a hmem ha => Simulation.reports_of_next_turn hsim ha hmem, fun c hc => ?_⟩
  rw [← hsim.hp, ← Simulation.timed_append_repeating_of_cycle hc]
  constructor
  · intro hall turn hturn e he _ a hmem ha
    exact (Simulation.reports_iff hsim ha).mp (hall turn hturn e he a hmem ha)
  · intro hcommon turn hturn e he a hmem ha
    by_cases heverywhere : ∀ turn' ∈ c.body m.turnMaps, e ∈ turn'.entries
    · have hfound := hcommon turn hturn e he heverywhere a hmem ha
      exact (Simulation.reports_iff hsim ha).mpr hfound
    · simp only [not_forall] at heverywhere
      obtain ⟨turn', hturn', he'⟩ := heverywhere
      exact Simulation.reports_of_not_common hsim hc ha hturn he hmem hturn' he'

/-- The enemy dispels on its first ten walks and deals gravity from then on. -/
def changeAfterTenWalks : Program where
  nodes := #[
    .setCounter .add 1,
    .branchCounter .greaterOrEqual 11 4,
    .action (.mk 1 (.effect .dispel) none),
    .action (.mk 2 (.effect (.gravity 25)) none)]
  staysWithin := by decide

/-- **A steady state that is lost.** The enemy dispels on all turns of its cycle, and no group says
so: when the HP sweep begins, the enemy has changed for good. -/
theorem steady_state_lost :
    ∃ m, changeAfterTenWalks.simulate 1 = .ok m ∧ m.cycle? = some ⟨0, 1⟩ ∧
      (∃ turn ∈ (Cycle.mk 0 1).body m.turnMaps, ∃ e ∈ turn.entries,
        Action.mk 1 (.effect .dispel) none ∈ e.2) ∧
      ¬ m.skillset.Reports (.mk 1 (.effect .dispel) none) := by
  have hruns : (changeAfterTenWalks.simulate 1).toOption.any (fun m =>
      m.cycle? = some ⟨0, 1⟩ ∧
      (∃ turn ∈ (Cycle.mk 0 1).body m.turnMaps, ∃ e ∈ turn.entries,
        Action.mk 1 (.effect .dispel) none ∈ e.2) ∧
      ¬ m.skillset.Reports (.mk 1 (.effect .dispel) none)) = true := by
    decide +kernel
  obtain ⟨m, hm⟩ := changeAfterTenWalks.exists_simulate 1
  rw [hm] at hruns
  exact ⟨m, hm, of_decide_eq_true hruns⟩

end Program

end EnemyBehavior
