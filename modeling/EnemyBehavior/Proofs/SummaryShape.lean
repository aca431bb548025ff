import EnemyBehavior.Proofs.CountGroups
import EnemyBehavior.Proofs.CycleGroups
import EnemyBehavior.Proofs.SteadyState
import EnemyBehavior.Proofs.TidySkillsets

/-!
# The shape of every summary

The sweeps report their groups in order: turns ascending and HP descending, numbers of enemies
descending, HP descending. Cleaning leaves groups out and moves gated actions, but it never puts a
group for a turn or for a number of enemies in another place. An HP group stands at the ceiling of a
group of the sweep, or was opened for an action that has its ceiling as threshold.

## Main statements

* `Skillset.clean_place_sublist`, `Skillset.clean_enemyCount_sublist` — cleaning keeps the order
* `Skillset.hasReason_clean` — why there is an HP group with its ceiling
* `Simulation.place_of_mem_turns` — groups for turns stand at turns and percentages of the sweep
* `Program.summary_well_shaped` — the shape of every summary
-/

namespace EnemyBehavior

variable {a : Action} {ceiling : UInt32} {ceilings : List UInt32} {gs : List HpGroup}
  {g : HpGroup} {s : Skillset} {current : List Action}

/-! ## Cleaning keeps the order of groups -/

/-- The turn and the percentage of a group. -/
def TimedGroup.place (g : TimedGroup) : UInt32 × UInt32 := (g.turn, g.hp)

theorem pairwise_before_iff {groups : List TimedGroup} :
    groups.Pairwise TimedGroup.Before ↔
      (groups.map TimedGroup.place).Pairwise fun x y => x.1 < y.1 ∨ x.1 = y.1 ∧ y.2 < x.2 := by
  rw [List.pairwise_map]
  exact Iff.rfl

/-- Taking out misplaced actions and dropping empty groups leaves the others in their places. -/
theorem place_filter_placed_sublist (groups : List TimedGroup) :
    (((groups.map TimedGroup.placed).filter (!·.actions.isEmpty)).map TimedGroup.place).Sublist
      (groups.map TimedGroup.place) := by
  have hplaced : (groups.map TimedGroup.placed).map TimedGroup.place
      = groups.map TimedGroup.place := by
    rw [List.map_map]
    rfl
  rw [← hplaced]
  exact List.filter_sublist.map _

theorem eq_nil_of_place_sublist {groups groups' : List TimedGroup}
    (h : (groups.map TimedGroup.place).Sublist (groups'.map TimedGroup.place))
    (hnil : groups' = []) : groups = [] := by
  rw [hnil] at h
  exact List.map_eq_nil_iff.mp (List.sublist_nil.mp h)

namespace Skillset

/-- Cleaning leaves groups for turns out, and moves none. -/
theorem clean_place_sublist (s : Skillset) :
    (s.clean.timed.map TimedGroup.place).Sublist (s.timed.map TimedGroup.place) ∧
      (s.clean.repeating.map TimedGroup.place).Sublist (s.repeating.map TimedGroup.place) := by
  cases hne : s.isFunctionallyEmpty with
  | true =>
    rw [clean_of_empty hne]
    exact ⟨List.nil_sublist _, List.nil_sublist _⟩
  | false =>
    rw [clean_of_not_empty hne]
    exact ⟨place_filter_placed_sublist s.timed, place_filter_placed_sublist s.repeating⟩

theorem clean_enemyCount_sublist (s : Skillset) : s.clean.enemyCount.Sublist s.enemyCount := by
  cases hne : s.isFunctionallyEmpty with
  | true =>
    rw [clean_of_empty hne]
    exact List.nil_sublist _
  | false =>
    rw [clean_of_not_empty hne]
    exact List.filter_sublist

end Skillset

/-! ## Why there is an HP group -/

/-- The group has one of the given ceilings, or holds an action with its ceiling as threshold. -/
def HpGroup.HasReason (ceilings : List UInt32) (g : HpGroup) : Prop :=
  g.ceiling ∈ ceilings ∨ ∃ a ∈ g.actions, a.hpThreshold? = some g.ceiling

/-- An action filed under its threshold opens a group with a reason, and takes none away. -/
theorem hasReason_fileUnder (ha : a.hpThreshold? = some ceiling)
    (h : ∀ g ∈ gs, g.HasReason ceilings) :
    ∀ g ∈ fileUnder ceiling a gs, g.HasReason ceilings := by
  induction gs with
  | nil =>
    intro g hg
    obtain rfl := List.mem_singleton.mp hg
    exact .inr ⟨a, List.mem_singleton_self a, ha⟩
  | cons g gs ih =>
    obtain ⟨hg, hgs⟩ := List.forall_mem_cons.mp h
    unfold fileUnder
    split
    · refine List.forall_mem_cons.mpr ⟨?_, hgs⟩
      split
      · exact hg
      · rcases hg with hceiling | ⟨b, hb, hthreshold⟩
        · exact .inl hceiling
        · exact .inr ⟨b, List.mem_append_left _ hb, hthreshold⟩
    · exact List.forall_mem_cons.mpr ⟨hg, ih hgs⟩

theorem hasReason_foldl_fileAction {as : List Action} (has : ∀ a ∈ as, a.isGated = true)
    (h : ∀ g ∈ gs, g.HasReason ceilings) :
    ∀ g ∈ as.foldl fileAction gs, g.HasReason ceilings := by
  induction as generalizing gs with
  | nil => exact h
  | cons a as ih =>
    obtain ⟨ha, has⟩ := List.forall_mem_cons.mp has
    obtain ⟨t, ht, hfile⟩ := fileAction_of_isGated gs ha
    rw [List.foldl_cons, hfile]
    exact ih has (hasReason_fileUnder ht h)

/-- Leaving out a standing moveset takes no gated action away. -/
theorem HpGroup.HasReason.compress (h : g.HasReason ceilings) :
    (g.compress current).HasReason ceilings := by
  unfold HasReason
  rw [ceiling_compress]
  rcases h with hceiling | ⟨a, ha, hthreshold⟩
  · exact .inl hceiling
  · refine .inr ⟨a, ?_, hthreshold⟩
    have hgated : a.isGated = true := by simp [Action.isGated, hthreshold]
    have hkept : a ∈ g.actions.filter Action.isGated := List.mem_filter.mpr ⟨ha, hgated⟩
    rw [← filter_compress (fun _ => Action.isGated_eq_false_of_isStanding) current g] at hkept
    exact (List.mem_filter.mp hkept).1

theorem hasReason_dropRepeatedMovesets (h : ∀ g ∈ gs, g.HasReason ceilings) :
    ∀ g ∈ dropRepeatedMovesets current gs, g.HasReason ceilings := by
  induction gs generalizing current with
  | nil => exact h
  | cons g gs ih =>
    obtain ⟨hg, hgs⟩ := List.forall_mem_cons.mp h
    rw [dropRepeatedMovesets_cons]
    exact List.forall_mem_cons.mpr ⟨hg.compress, ih hgs⟩

/-- **Every HP group of a cleaned skillset stands at the ceiling of a group that was there before,
or holds an action with its ceiling as threshold.** -/
theorem Skillset.hasReason_clean (s : Skillset) :
    ∀ g ∈ s.clean.hp, g.HasReason (s.hp.map HpGroup.ceiling) := by
  cases hne : s.isFunctionallyEmpty with
  | true =>
    rw [clean_of_empty hne]
    exact nofun
  | false =>
    -- pass by pass: filing gated actions may open groups, later passes only reorder or drop
    have hplaced : ∀ g ∈ s.hp.map HpGroup.placed, g.HasReason (s.hp.map HpGroup.ceiling) := by
      intro _ hg
      obtain ⟨g, hmem, rfl⟩ := List.mem_map.mp hg
      exact .inl (List.mem_map.mpr ⟨g, hmem, rfl⟩)
    have hrelocated : ∀ g ∈ s.relocated, g.HasReason (s.hp.map HpGroup.ceiling) :=
      hasReason_foldl_fileAction (fun _ ha => isGated_of_mem_misplaced ha) hplaced
    have hordered : ∀ g ∈ s.ordered, g.HasReason (s.hp.map HpGroup.ceiling) :=
      fun g hg => hrelocated g ((sortByCeiling_perm _).mem_iff.mp hg)
    rw [clean_hp hne]
    intro g hg
    exact hasReason_dropRepeatedMovesets hordered g (List.mem_filter.mp hg).1

/-! ## The groups of the sweeps -/

namespace Program

variable {p : Program} {level : UInt32} {m : Simulation}

/-- A turn has entries for sampled percentages only. -/
theorem IsSimulation.hp_mem_of_onTurn (h : p.IsSimulation level m) {t : Nat} {e : HpEntry}
    (he : OnTurn m.turnMaps t e) : t < sweepTurnCount ∧ e.1 ∈ p.sampledHp := by
  obtain ⟨turn, hturn, hget⟩ := he
  have hlength : t < m.turnMaps.length := (List.getElem?_eq_some_iff.mp hturn).1
  rw [h.length_turnMaps] at hlength
  refine ⟨hlength, ?_⟩
  obtain ⟨r, hr, rfl⟩ := List.mem_map.mp (List.mem_of_getElem? hturn)
  have hsample := TurnMap.mem_of_mem_ofSamples (TurnMap.get?_eq_some_iff.mp hget)
  rw [h.turns.eq_turnRecord r hr, map_entry_turnRecord] at hsample
  obtain ⟨hp, hmem, rfl⟩ := List.mem_map.mp hsample
  exact hmem

/-- The cycle of an enemy lies within the sweep. -/
theorem IsSimulation.mem_candidates_of_cycle? (h : p.IsSimulation level m) {c : Cycle}
    (hc : m.cycle? = some c) : c.start < c.stop ∧ c.stop < sweepTurnCount := by
  have hmem := Cycle.mem_candidates.mp (List.mem_of_find?_eq_some hc)
  rw [h.length_turnMaps] at hmem
  exact hmem

/-- **Groups for turns stand at turns and percentages of the sweep.** -/
theorem IsSimulation.place_of_mem_turns (h : p.IsSimulation level m) {g : TimedGroup}
    (hg : g ∈ m.timedGroups ++ m.repeatingGroups) :
    1 ≤ g.turn ∧ g.turn ≤ 10 ∧ g.hp ∈ p.withoutPassives.hpCheckpoints := by
  rw [Simulation.timed_append_repeating] at hg
  cases hc : m.cycle? with
  | none =>
    rw [hc] at hg
    cases hg
  | some c =>
    rw [hc] at hg
    obtain ⟨t, e, hon, rfl⟩ := Cycle.exists_entry_of_mem_groups hg
    obtain ⟨ht, hhp⟩ := h.hp_mem_of_onTurn hon
    have hten : t < 10 := ht
    have hnumber : (Cycle.turnNumber t).toNat = t + 1 :=
      Cycle.toNat_turnNumber (by show t + 1 < 4294967296; omega)
    refine ⟨?_, ?_, List.mem_reverse.mp hhp⟩
    · rw [UInt32.le_iff_toNat_le]
      show 1 ≤ (Cycle.turnNumber t).toNat
      omega
    · rw [UInt32.le_iff_toNat_le]
      show (Cycle.turnNumber t).toNat ≤ 10
      omega

/-- Groups for turns stand in order, and they are of one sort only. -/
theorem IsSimulation.turns_in_order (h : p.IsSimulation level m) :
    m.timedGroups.Pairwise TimedGroup.Before ∧ m.repeatingGroups.Pairwise TimedGroup.Before ∧
      (m.timedGroups = [] ∨ m.repeatingGroups = []) := by
  unfold Simulation.timedGroups Simulation.repeatingGroups
  cases hc : m.cycle? with
  | none => exact ⟨.nil, .nil, .inl rfl⟩
  | some c =>
    obtain ⟨hlt, hstop⟩ := h.mem_candidates_of_cycle? hc
    have hstop : c.stop < 10 := hstop
    have hgroups : (c.groups m.turnMaps).Pairwise TimedGroup.Before :=
      Cycle.pairwise_groups hlt (by show c.stop < 4294967296; omega)
    obtain ⟨htimed, hrepeating, -⟩ := List.pairwise_append.mp hgroups
    refine ⟨htimed, hrepeating, ?_⟩
    by_cases hperiod : c.period = 1
    · exact .inr (if_pos hperiod)
    · exact .inl (if_neg hperiod)

/-- HP groups stand at sampled percentages before the cleanup. -/
theorem IsSimulation.ceiling_mem_of_mem_hpGroups (h : p.IsSimulation level m) {g : HpGroup}
    (hg : g ∈ m.hpGroups) : g.ceiling ∈ p.withoutPassives.hpCheckpoints := by
  obtain ⟨r, hr, hceiling, -⟩ := Simulation.mem_hpGroups_iff.mp hg
  have hhp : r.hp ∈ m.hp.map HpRecord.hp := List.mem_map_of_mem hr
  rw [h.hp, sweepHp, map_hp_sweepHpFrom] at hhp
  rw [hceiling]
  exact List.mem_reverse.mp hhp

/-! ## What is left after the cleanup -/

/-- The groups for turns in a summary stand at turns and percentages of the sweep. -/
theorem IsSimulation.place_of_mem_clean (h : p.IsSimulation level m) {g : TimedGroup}
    (hg : g ∈ m.draft.clean.timed ++ m.draft.clean.repeating) :
    1 ≤ g.turn ∧ g.turn ≤ 10 ∧ g.hp ∈ p.withoutPassives.hpCheckpoints := by
  have hplaces : ((m.draft.clean.timed ++ m.draft.clean.repeating).map TimedGroup.place).Sublist
      ((m.timedGroups ++ m.repeatingGroups).map TimedGroup.place) := by
    obtain ⟨htimed, hrepeating⟩ := m.draft.clean_place_sublist
    rw [List.map_append, List.map_append]
    exact htimed.append hrepeating
  obtain ⟨g', hg', hplace⟩ := List.mem_map.mp (hplaces.subset (List.mem_map_of_mem hg))
  obtain ⟨hturn, hhp⟩ := Prod.mk.inj hplace
  rw [← hturn, ← hhp]
  exact h.place_of_mem_turns hg'

/-- The HP groups in a summary stand at sampled percentages or at thresholds of their actions. -/
theorem IsSimulation.hasReason_of_mem_clean (h : p.IsSimulation level m) {g : HpGroup}
    (hg : g ∈ m.draft.clean.hp) : g.HasReason p.withoutPassives.hpCheckpoints := by
  rcases m.draft.hasReason_clean g hg with hceiling | hthreshold
  · obtain ⟨g', hg', hsame⟩ := List.mem_map.mp hceiling
    left
    rw [← hsame]
    exact h.ceiling_mem_of_mem_hpGroups hg'
  · exact .inr hthreshold

end Program

/-! ## Summaries -/

/-- Groups stand in order and within bounds, and none of them is empty. -/
structure Skillset.WellShaped (checkpoints : List UInt32) (s : Skillset) : Prop where
  timed : s.timed.Pairwise TimedGroup.Before
  repeating : s.repeating.Pairwise TimedGroup.Before
  oneSort : s.timed = [] ∨ s.repeating = []
  turns : ∀ g ∈ s.timed ++ s.repeating,
    1 ≤ g.turn ∧ g.turn ≤ 10 ∧ g.hp ∈ checkpoints ∧ g.actions ≠ []
  ceilings : s.hp.Pairwise (·.ceiling ≥ ·.ceiling)
  hp : ∀ g ∈ s.hp, g.HasReason checkpoints ∧ g.actions ≠ []
  counts : s.enemyCount.Pairwise fun g g' => g'.count < g.count
  enemyCount : ∀ g ∈ s.enemyCount,
    1 ≤ g.count ∧ g.count ≤ 6 ∧ (g.actions ≠ [] ∨ g.followUp ≠ none)

/-- **Every summary has its groups in order and within bounds.** -/
theorem Program.summary_well_shaped (p : Program) (level : UInt32) :
    ∃ summary, p.summarize level = .ok summary ∧
      summary.skillset.WellShaped p.withoutPassives.hpCheckpoints := by
  obtain ⟨m, hsim, hm⟩ := p.exists_summarize level
  obtain ⟨htimed, hrepeating, honeSort⟩ := hsim.turns_in_order
  obtain ⟨htimedSub, hrepeatingSub⟩ := m.draft.clean_place_sublist
  obtain ⟨hcounts, hrange⟩ := hsim.counts_draft
  have htidy := m.draft.isTidy_clean
  refine ⟨m.summary, hm, ?_⟩
  constructor
  case timed =>
    exact pairwise_before_iff.mpr ((pairwise_before_iff.mp htimed).sublist htimedSub)
  case repeating =>
    exact pairwise_before_iff.mpr ((pairwise_before_iff.mp hrepeating).sublist hrepeatingSub)
  case oneSort =>
    rcases honeSort with hnone | hnone
    · exact .inl (eq_nil_of_place_sublist htimedSub hnone)
    · exact .inr (eq_nil_of_place_sublist hrepeatingSub hnone)
  case turns =>
    intro g hg
    obtain ⟨hone, hten, hhp⟩ := hsim.place_of_mem_clean hg
    exact ⟨hone, hten, hhp, (htidy.turns g hg).2⟩
  case ceilings => exact htidy.ordered
  case hp =>
    intro g hg
    exact ⟨hsim.hasReason_of_mem_clean hg, (htidy.hp g hg).2⟩
  case counts => exact hcounts.sublist m.draft.clean_enemyCount_sublist
  case enemyCount =>
    intro g hg
    obtain ⟨hone, hsix⟩ := hrange g (m.draft.clean_enemyCount_sublist.subset hg)
    exact ⟨hone, hsix, EnemyCountGroup.isVoid_eq_false_iff.mp (htidy.counts g hg)⟩

end EnemyBehavior
