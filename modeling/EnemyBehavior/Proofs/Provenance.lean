import EnemyBehavior.Proofs.Cleaning
import EnemyBehavior.Proofs.View
import EnemyBehavior.Proofs.WalkBounds

/-!
# Where what is reported comes from

Every action of a skillset is traced back: from its group to a walk of the simulation, and from the
walk to a node of the program. Cleaning moves actions between groups and invents none; groups are
read off walks; a walk reports the actions of its nodes, countdowns, and the plain attack. Walks are
made on the program without its traits, so these are listed apart and nowhere else.

## Main statements

* `Skillset.shows_of_clean` — cleaning invents no action
* `Simulation.exists_probe_of_shows` — the actions of all groups are those of walks
* `Program.mem_toList_of_mem_actions` — the actions of a walk are those of nodes
* `Program.summary_invents_nothing` — the actions of a summary are those of the program
-/

namespace EnemyBehavior

variable {p : Program} {s : BattleState} {a : Action} {level : UInt32} {m : Simulation}

/-! ## Actions of a skillset -/

/-- The action is used with that number of enemies, or on the turn after. -/
def EnemyCountGroup.Shows (g : EnemyCountGroup) (a : Action) : Prop :=
  a ∈ g.actions ∨ ∃ followUp, g.followUp = some followUp ∧ a ∈ followUp

namespace Skillset

/-- The action stands in a group of any kind. -/
def Shows (k : Skillset) (a : Action) : Prop :=
  k.Reports a ∨ ∃ g ∈ k.enemyCount, g.Shows a

/-- **Cleaning invents no action.** -/
theorem shows_of_clean {k : Skillset} (h : k.clean.Shows a) : k.Shows a := by
  cases hne : k.isFunctionallyEmpty with
  | true =>
    rw [clean_of_empty hne] at h
    rcases h with (⟨g, hg, -⟩ | hmem) | ⟨g, hg, -⟩
    · cases hg
    · cases hmem
    · cases hg
  | false =>
    rcases h with hreports | ⟨g, hg, ha⟩
    · exact .inl ((reports_clean_iff hne).mp hreports)
    · rw [clean_of_not_empty hne] at hg
      exact .inr ⟨g, (List.mem_filter.mp hg).1, ha⟩

end Skillset

/-! ## From groups to walks -/

/-- A group for a number of enemies tells of the walks of its record. -/
theorem CountSweep.exists_probe_of_shows {c : CountSweep} {g : EnemyCountGroup}
    (hg : g ∈ c.groups) (ha : g.Shows a) : ∃ q ∈ c.probes, a ∈ q.actions := by
  obtain ⟨r, hr, hgroup⟩ := List.mem_filterMap.mp hg
  obtain ⟨second, hsecond, rfl⟩ := Option.map_eq_some_iff.mp hgroup
  have hprobe : ∀ q ∈ r.probes, q ∈ c.probes := by
    intro q hq
    exact List.mem_cons_of_mem _ (List.mem_flatMap.mpr ⟨r, hr, hq⟩)
  rcases ha with ha | ⟨followUp, hfollow, ha⟩
  · exact ⟨r.first, hprobe _ (by simp [CountRecord.probes]), ha⟩
  · refine ⟨second, hprobe _ (by simp [CountRecord.probes, hsecond]), ?_⟩
    simp only at hfollow
    split at hfollow
    · cases hfollow
    · cases hfollow
      exact ha

namespace Simulation

/-- The opening move is what the opening walk did, if it passed a marker that the enemy has. -/
theorem mem_opening_of_mem_preemptives (h : a ∈ m.preemptives) :
    m.hasOpeningMove = true ∧ a ∈ m.opening.actions := by
  unfold preemptives at h
  split at h
  · next hmove => exact ⟨hmove, h⟩
  · cases h

/-- The opening move is reported as it is. -/
theorem preemptives_skillset (m : Simulation) : m.skillset.preemptives = m.preemptives :=
  m.draft.clean_header.2.2

/-- A group for a turn tells of a walk on some turn. -/
theorem exists_probe_of_mem_turns {g : TimedGroup} (hg : g ∈ m.timedGroups ++ m.repeatingGroups) :
    ∃ q ∈ m.turns.flatMap TurnRecord.probes, q.entry = g.entry := by
  obtain ⟨turn, hturn, hentry⟩ := exists_turn_of_mem_groups hg
  obtain ⟨r, hr, rfl⟩ := List.mem_map.mp hturn
  obtain ⟨q, hq, hsame⟩ := List.mem_map.mp (TurnMap.mem_of_mem_ofSamples hentry)
  exact ⟨q, List.mem_flatMap.mpr ⟨r, hr, hq⟩, hsame⟩

/-- A group for HP tells of a walk of the HP sweep. -/
theorem exists_probe_of_mem_hpGroups {g : HpGroup} (hg : g ∈ m.hpGroups) :
    ∃ q ∈ m.hp.flatMap HpRecord.probes, q.actions = g.actions := by
  obtain ⟨r, hr, hg⟩ := List.mem_flatMap.mp hg
  obtain ⟨-, hfresh, -⟩ := HpRecord.mem_groups.mp hg
  obtain ⟨q, hq, hactions⟩ := HpRecord.exists_probe_of_mem_freshActions hfresh
  exact ⟨q, List.mem_flatMap.mpr ⟨r, hr, hq⟩, hactions⟩

/-- **The actions of all groups are those of walks after the opening.** -/
theorem exists_probe_of_shows (h : m.draft.Shows a) : ∃ q ∈ m.laterProbes, a ∈ q.actions := by
  unfold laterProbes
  rcases h with (⟨g, hg, ha⟩ | ha) | ⟨g, hg, ha⟩
  · obtain ⟨q, hq, hentry⟩ := exists_probe_of_mem_turns hg
    have hactions : q.actions = g.actions := congrArg Prod.snd hentry
    exact ⟨q, by simp [hq], hactions ▸ ha⟩
  · obtain ⟨g, hg, ha⟩ := mem_groupActions.mp ha
    obtain ⟨q, hq, hactions⟩ := exists_probe_of_mem_hpGroups hg
    exact ⟨q, List.mem_append_right _ hq, hactions ▸ ha⟩
  · have hgroups : g ∈ (m.counts.map CountSweep.groups).getD [] := hg
    cases hc : m.counts with
    | none =>
      rw [hc] at hgroups
      cases hgroups
    | some c =>
      rw [hc] at hgroups
      obtain ⟨q, hq, ha⟩ := CountSweep.exists_probe_of_shows hgroups ha
      exact ⟨q, List.mem_append_left _ (List.mem_append_right _ hq), ha⟩

end Simulation

/-! ## From walks to nodes -/

namespace Program

/-- The action may be reported for the program: as the plain attack, for a node that states no
trait, or for a countdown that has to wait. -/
inductive Yields (p : Program) : Action → Prop
  | defaultAttack : Yields p .defaultAttack
  | node {a : Action} : .action a ∈ p.toList → a.isPassive = false → Yields p a
  | countdown (remaining : Int64) : .countdown ∈ p.toList → Yields p (.countdown remaining)

/-- The actions of a walk are those of nodes, countdowns, and the plain attack. -/
theorem mem_toList_of_mem_actions (h : a ∈ (p.trace s).actions) :
    a = .defaultAttack ∨ .action a ∈ p.toList ∨
      (.countdown ∈ p.toList ∧ ∃ remaining, a = .countdown remaining) := by
  rcases Trace.mem_actions h with rfl | ⟨v, hv, hfired⟩
  · exact .inl rfl
  · have hstep := trace_isStep hv
    rw [hstep.flow] at hfired
    have hnode := node?_eq_some hstep.node
    rcases Node.eq_of_emitted? hfired with ⟨heq, -⟩ | ⟨heq, rfl⟩
    · rw [heq] at hnode
      rcases hnode with hnoOp | hmem
      · cases hnoOp
      · exact .inr (.inl hmem)
    · rw [heq] at hnode
      rcases hnode with hnoOp | hmem
      · cases hnoOp
      · exact .inr (.inr ⟨hmem, _, rfl⟩)

/-- A program whose nodes are nodes of `p`, but no traits, reports what `p` yields. -/
theorem yields_of_mem_actions {q : Program}
    (hq : ∀ node ∈ q.toList, node = .noOp ∨ (node ∈ p.toList ∧ node.isPassive = false))
    (h : a ∈ (q.trace s).actions) : p.Yields a := by
  rcases mem_toList_of_mem_actions h with rfl | hmem | ⟨hmem, remaining, rfl⟩
  · exact .defaultAttack
  · rcases hq _ hmem with hnoOp | ⟨hmem, hpassive⟩
    · cases hnoOp
    · exact .node hmem (by simpa [Node.isPassive, Node.action?] using hpassive)
  · rcases hq _ hmem with hnoOp | ⟨hmem, -⟩
    · cases hnoOp
    · exact .countdown remaining hmem

/-- **The walks of a simulation report what its program yields.** -/
theorem IsSimulation.yields (h : p.IsSimulation level m) {q : Probe} (hq : q ∈ m.probes)
    (ha : a ∈ q.actions) : p.Yields a := by
  have hopening : ∀ node ∈ p.withoutPassives.toList,
      node = .noOp ∨ (node ∈ p.toList ∧ node.isPassive = false) :=
    fun node hnode => mem_toList_blank hnode
  have hsteady : ∀ node ∈ p.steady.toList,
      node = .noOp ∨ (node ∈ p.toList ∧ node.isPassive = false) := by
    intro node hnode
    rcases mem_toList_blank hnode with hnoOp | ⟨hmem, -⟩
    · exact .inl hnoOp
    · exact hopening node hmem
  rcases h.probe_eq hq with heq | heq
  · rw [heq] at ha
    exact yields_of_mem_actions hopening ha
  · rw [heq] at ha
    exact yields_of_mem_actions hsteady ha

/-! ## Summaries -/

/-- The traits are those of the nodes that state one, in program order. -/
theorem map_action_passives (p : Program) :
    p.passives.map Node.action = p.toList.filter Node.isPassive := by
  unfold passives
  induction p.toList with
  | nil => rfl
  | cons node nodes ih =>
    cases node with
    | action a =>
      by_cases hpassive : a.isPassive = true
      · simp [Node.action?, Node.isPassive, hpassive, ih]
      · simp [Node.action?, Node.isPassive, hpassive, ih]
    | _ => simpa [List.filterMap_cons, Node.action?, Node.isPassive] using ih

/-- **A summary invents nothing, and reports traits as traits only.** Its traits are those of the
nodes that state one, in program order. Every action of the opening move and of any group is that of
a node that states no trait, or a countdown of a program that counts down, or the plain attack. -/
theorem summary_invents_nothing (p : Program) (level : UInt32) :
    ∃ summary, p.summarize level = .ok summary ∧
      summary.skillset.baseAbilities.map Node.action = p.toList.filter Node.isPassive ∧
      (∀ a ∈ summary.skillset.preemptives, p.Yields a) ∧
      ∀ a, summary.skillset.Shows a → p.Yields a := by
  obtain ⟨m, hsim, hm⟩ := p.exists_summarize level
  obtain ⟨-, habilities, -⟩ := m.draft.clean_header
  refine ⟨m.summary, hm, ?_, fun a ha => ?_, fun a ha => ?_⟩
  · show m.draft.clean.baseAbilities.map Node.action = _
    rw [habilities, ← p.map_action_passives, ← hsim.program]
    rfl
  · have hopening : a ∈ m.preemptives := m.preemptives_skillset ▸ ha
    have hprobe : m.opening ∈ m.probes := List.mem_cons_self
    exact hsim.yields hprobe (Simulation.mem_opening_of_mem_preemptives hopening).2
  · obtain ⟨q, hq, ha⟩ := Simulation.exists_probe_of_shows (Skillset.shows_of_clean ha)
    have hprobe : q ∈ m.probes := List.mem_cons_of_mem m.opening hq
    exact hsim.yields hprobe ha

end Program

end EnemyBehavior
