import EnemyBehavior.Proofs.Cleaning
import EnemyBehavior.Proofs.Phases

/-!
# Gated actions are filed once

An action with an HP gate fires only strictly below its threshold, and every group of a simulation
stems from a walk at the percentage of the group. So before the cleanup no gated action stands
under its own threshold: all of them are misplaced, all are taken out, and each is filed once.

## Main statements

* `Simulation.gatesOpen_draft` — in the draft of a simulation all HP gates are open
* `Skillset.gatedOf_relocated_perm` — then relocation files exactly the misplaced actions
* `Program.gated_actions_filed_once` — gated actions in the skillset of an enemy
-/

namespace EnemyBehavior

variable {a : Action} {key : UInt32}

/-! ## Open gates are misplaced -/

/-- An open gate has another threshold than the percentage it is open at. -/
theorem Action.isMisplaced_of_openAt (h : a.OpenAt key) : a.isMisplaced key = a.isGated := by
  unfold isMisplaced isGated
  cases ht : a.hpThreshold? with
  | none => rfl
  | some t =>
    have hne : t ≠ key := by
      rintro rfl
      exact UInt32.lt_irrefl t (h t ht)
    simpa using hne

namespace Skillset

variable {s : Skillset}

/-- Each action of a group could fire at the percentage of the group. -/
structure GatesOpen (s : Skillset) : Prop where
  turns : ∀ g ∈ s.timed ++ s.repeating, ∀ a ∈ g.actions, a.OpenAt g.hp
  hp : ∀ g ∈ s.hp, ∀ a ∈ g.actions, a.OpenAt g.ceiling

/-- All gated actions are misplaced. -/
theorem GatesOpen.mem_misplaced (h : s.GatesOpen) :
    a ∈ s.misplaced ↔ s.Reports a ∧ a.isGated = true := by
  have hturns : ∀ g ∈ s.timed ++ s.repeating, a ∈ g.actions → a.isMisplaced g.hp = a.isGated :=
    fun g hg ha => Action.isMisplaced_of_openAt (h.turns g hg a ha)
  have hhp : ∀ g ∈ s.hp, a ∈ g.actions → a.isMisplaced g.ceiling = a.isGated :=
    fun g hg ha => Action.isMisplaced_of_openAt (h.hp g hg a ha)
  rw [Skillset.mem_misplaced, Reports, mem_groupActions]
  constructor
  · rintro (⟨g, hg, ha, hmis⟩ | ⟨g, hg, ha, hmis⟩)
    · exact ⟨.inl ⟨g, hg, ha⟩, hturns g hg ha ▸ hmis⟩
    · exact ⟨.inr ⟨g, hg, ha⟩, hhp g hg ha ▸ hmis⟩
  · rintro ⟨⟨g, hg, ha⟩ | ⟨g, hg, ha⟩, hgated⟩
    · exact .inl ⟨g, hg, ha, (hturns g hg ha).trans hgated⟩
    · exact .inr ⟨g, hg, ha, (hhp g hg ha).trans hgated⟩

/-- No gated action stays where it is. -/
theorem GatesOpen.isGated_of_mem_placed (h : s.GatesOpen)
    (ha : a ∈ groupActions (s.hp.map HpGroup.placed)) : a.isGated = false := by
  obtain ⟨_, hplaced, ha⟩ := mem_groupActions.mp ha
  obtain ⟨g, hg, rfl⟩ := List.mem_map.mp hplaced
  obtain ⟨ha, hmis⟩ := mem_placedActions.mp ha
  rw [← Action.isMisplaced_of_openAt (h.hp g hg a ha)]
  exact hmis

/-- **When all gates are open, relocation files exactly the misplaced actions.** -/
theorem gatedOf_relocated_perm (h : s.GatesOpen) : (gatedOf s.relocated).Perm s.misplaced := by
  have hgated : ∀ a ∈ s.misplaced, a.isGated = true := fun _ ha => isGated_of_mem_misplaced ha
  have hnew : ∀ a ∈ s.misplaced, a ∉ groupActions (s.hp.map HpGroup.placed) := by
    intro a ha hplaced
    have hnot := h.isGated_of_mem_placed hplaced
    rw [hgated a ha] at hnot
    cases hnot
  have hfiled := groupActions_foldl_fileAction_perm hgated s.nodup_misplaced hnew
  have hplaced : (groupActions (s.hp.map HpGroup.placed)).filter Action.isGated = [] :=
    List.filter_eq_nil_iff.mpr fun a ha => by simp [h.isGated_of_mem_placed ha]
  have hall : s.misplaced.filter Action.isGated = s.misplaced :=
    List.filter_eq_self.mpr hgated
  have hfilter := hfiled.filter Action.isGated
  rw [List.filter_append, hplaced, hall, List.append_nil] at hfilter
  exact hfilter

/-! ## After the cleanup -/

theorem ungated_of_mem_clean (h : s.GatesOpen) (hne : s.isFunctionallyEmpty = false)
    (ha : ∃ g ∈ s.clean.timed ++ s.clean.repeating, a ∈ g.actions) : a.hpThreshold? = none := by
  obtain ⟨g, hg, ha, hmis⟩ := (exists_mem_clean_turns_iff hne).mp ha
  rw [Action.isMisplaced_of_openAt (h.turns g hg a ha)] at hmis
  simpa [Action.isGated] using hmis

theorem nodup_gatedOf_clean (h : s.GatesOpen) (hne : s.isFunctionallyEmpty = false) :
    (gatedOf s.clean.hp).Nodup := by
  have hclean : (gatedOf s.clean.hp).Perm (gatedOf s.relocated) :=
    filter_clean_perm_relocated hne fun _ => Action.isGated_eq_false_of_isStanding
  have hperm := hclean.trans (gatedOf_relocated_perm h)
  exact hperm.nodup_iff.mpr s.nodup_misplaced

theorem mem_clean_of_isGated (h : s.GatesOpen) (hne : s.isFunctionallyEmpty = false)
    (ha : s.Reports a) (hgated : a.isGated = true) : a ∈ groupActions s.clean.hp := by
  rw [mem_groupActions_clean hne, mem_groupActions_relocated]
  exact .inl (h.mem_misplaced.mpr ⟨ha, hgated⟩)

end Skillset

/-! ## In the skillset of an enemy -/

theorem Program.IsWalk.openAt {p : Program} {e : HpEntry} (h : p.IsWalk e) :
    ∀ a ∈ e.2, a.OpenAt e.1 := by
  obtain ⟨s, hhp, hactions⟩ := h
  rw [← hhp, ← hactions]
  exact fun _ ha => trace_actions_openAt ha

/-- **In the draft of a simulation all HP gates are open.** -/
theorem Simulation.gatesOpen_draft {p : Program} {level : UInt32} {m : Simulation}
    (h : p.IsSimulation level m) : m.draft.GatesOpen where
  turns _ hg := (isWalk_of_mem_turns h hg).openAt
  hp _ hg := (isWalk_of_mem_hpGroups h hg).openAt

/-- **Gated actions are filed once, under their own threshold.** Groups for turns hold none, an HP
group holds only those with its ceiling as threshold, and over all HP groups each stands once. None
is lost, unless nothing at all is reported. -/
theorem Program.gated_actions_filed_once (p : Program) (level : UInt32) :
    ∃ m, p.simulate level = .ok m ∧
      (∀ g ∈ m.skillset.timed ++ m.skillset.repeating, ∀ a ∈ g.actions,
        a.hpThreshold? = none) ∧
      (∀ g ∈ m.skillset.hp, ∀ a ∈ g.actions, ∀ t, a.hpThreshold? = some t → g.ceiling = t) ∧
      (gatedOf m.skillset.hp).Nodup ∧
      (m.draft.isFunctionallyEmpty = false →
        ∀ a, a.isGated = true → m.draft.Reports a → ∃ g ∈ m.skillset.hp, a ∈ g.actions) := by
  obtain ⟨m, hm⟩ := p.exists_simulate level
  have hopen := Simulation.gatesOpen_draft (simulate_eq_ok_iff.mp hm)
  refine ⟨m, hm, ?_⟩
  unfold Simulation.skillset
  cases hne : m.draft.isFunctionallyEmpty with
  | true =>
    -- without groups there is nothing to show
    rw [Skillset.clean_of_empty hne]
    exact ⟨nofun, nofun, .nil, nofun⟩
  | false =>
    refine ⟨fun g hg a ha => ?_, Skillset.wellPlaced_clean hne,
      Skillset.nodup_gatedOf_clean hopen hne, fun _ a hgated ha => ?_⟩
    · exact Skillset.ungated_of_mem_clean hopen hne ⟨g, hg, ha⟩
    · exact mem_groupActions.mp (Skillset.mem_clean_of_isGated hopen hne ha hgated)

end EnemyBehavior
