import EnemyBehavior.Proofs.Invariant
import EnemyBehavior.Proofs.OneTime
import Mathlib.Data.List.Flatten

/-!
# One-time actions across the phases

An opening move hands its register of one-time bits on to every later phase: all of them start from
the state it leaves, and no bit is given back. So what the opening move has used up is gone, and no
group shows it again.

The later phases start from copies of one state, so a one-time action may stand in groups of
different kinds. The sweep over HP, though, hands a single state through all its checkpoints. Within
the HP groups a bit is used up once; only relocation adds copies, and only of gated actions.

## Main statements

* `Program.IsSimulation.used_start` — the bits of the opening move are used in all later walks
* `Program.IsSimulation.masksDisjoint_of_mem_preemptives` — no group uses them up again
* `Program.sweepHpFrom_usesUp` — the walks of the HP sweep hand the register on
* `Program.one_time_actions_across_phases` — both, for what is reported
-/

namespace EnemyBehavior

variable {p : Program} {s t : BattleState} {a b : Action} {level : UInt32} {m : Simulation}

/-! ## What the opening move uses up -/

namespace Program

/-- Bits that are used stay used. -/
theorem keeps_used (p : Program) (mask : UInt64) :
    p.Keeps fun s => BitsWithin mask s.oneTimeFlags where
  after := by
    intro node _ s h
    rw [(node.usesUp s).2]
    exact h.trans (.or_left _ _)
  clearMarks := fun _ h => h
  withHp := fun _ _ h => h
  withEnemies := fun _ _ h => h
  endTurn := by
    intro s next h hnext
    rw [BattleState.endTurn_oneTimeFlags hnext]
    exact h

namespace IsSimulation

theorem used_afterOpening (h : p.IsSimulation level m) (ha : a ∈ m.preemptives) :
    BitsWithin a.oneTimeMask (afterOpening (.start level) m.opening).oneTimeFlags := by
  obtain ⟨hmove, hmem⟩ := Simulation.mem_opening_of_mem_preemptives ha
  have hkept : afterOpening (.start level) m.opening = m.opening.final.clearMarks := if_pos hmove
  rw [hkept]
  rw [h.opening] at hmem ⊢
  exact (usesUp_of_mem_actions hmem).2

/-- The bits of the opening move are used in all later walks. -/
theorem used_start (h : p.IsSimulation level m) (ha : a ∈ m.preemptives) :
    ∀ q ∈ m.laterProbes, BitsWithin a.oneTimeMask q.start.oneTimeFlags :=
  h.laterProbes_start (p.steady.keeps_used a.oneTimeMask) (h.used_afterOpening ha)

/-- **No group uses up again what the opening move has used up.** -/
theorem masksDisjoint_of_mem_preemptives (h : p.IsSimulation level m) (ha : a ∈ m.preemptives)
    (hb : m.skillset.Shows b) : a.MasksDisjoint b := by
  obtain ⟨q, hq, hmem⟩ := Simulation.exists_probe_of_shows (Skillset.shows_of_clean hb)
  have hused : BitsWithin a.oneTimeMask q.start.oneTimeFlags := h.used_start ha q hq
  have hunused : q.start.oneTimeFlags &&& b.oneTimeMask = 0 := by
    rw [h.laterProbe_eq hq] at hmem
    exact (usesUp_of_mem_actions hmem).1
  exact Action.masksDisjoint_of_and (hused.disjoint hunused)

end IsSimulation

end Program

/-! ## One state through the HP sweep -/

namespace Program

variable {checkpoints : List UInt32}

/-- The walks at one checkpoint hand the register on. -/
theorem settle_usesUp (p : Program) (hp : UInt32) (walks : Nat) (seen : List (List Action))
    (ht : t.oneTimeFlags = s.oneTimeFlags) :
    UsesUp s.oneTimeFlags
      ((HpRecord.mk hp (p.settle walks s seen)).probes.flatMap (·.trace.visits))
      ((HpRecord.mk hp (p.settle walks s seen)).final t).oneTimeFlags := by
  induction walks generalizing s t seen with
  | zero =>
    show UsesUp s.oneTimeFlags [] t.oneTimeFlags
    rw [ht]
    exact .done _
  | succ walks ih =>
    have hfirst : UsesUp s.oneTimeFlags (p.probe s).trace.visits (p.probe s).final.oneTimeFlags :=
      p.trace_usesUp s
    rw [settle_succ]
    split
    · exact hfirst.append (.done _)
    · rw [HpRecord.final_cons]
      exact hfirst.append (ih _ rfl)

/-- **The walks of the HP sweep hand the register on.** -/
theorem sweepHpFrom_usesUp (p : Program) (checkpoints : List UInt32) (s : BattleState)
    (seen : List (List Action)) :
    ∃ flags, UsesUp s.oneTimeFlags
      (((p.sweepHpFrom checkpoints s seen).flatMap HpRecord.probes).flatMap (·.trace.visits))
      flags := by
  induction checkpoints generalizing s seen with
  | nil => exact ⟨_, .done _⟩
  | cons hp checkpoints ih =>
    have hrecord : UsesUp s.oneTimeFlags
        ((p.hpRecord hp s seen).probes.flatMap (·.trace.visits))
        ((p.hpRecord hp s seen).final s).oneTimeFlags :=
      p.settle_usesUp (s := { s with hp }) hp maxHpWalks seen rfl
    obtain ⟨flags, hrest⟩ := ih ((p.hpRecord hp s seen).final s) _
    rw [sweepHpFrom_cons, List.flatMap_cons, List.flatMap_append]
    exact ⟨flags, hrecord.append hrest⟩

end Program

/-! ## One-time actions of the HP groups -/

/-- The action has a one-time gate. -/
def Action.isOneTime (a : Action) : Bool := a.oneTime?.isSome

/-- The action has a one-time gate and no HP gate. -/
def Action.isOnlyOneTime (a : Action) : Bool := a.isOneTime && !a.isGated

theorem Action.isOnlyOneTime_of_isGated (h : a.isGated = true) : a.isOnlyOneTime = false := by
  simp [isOnlyOneTime, h]

theorem Action.isOnlyOneTime_of_isStanding (h : a.isStanding = true) :
    a.isOnlyOneTime = false := by
  obtain ⟨-, hnone⟩ := Bool.and_eq_true_iff.mp h
  simp [isOnlyOneTime, isOneTime, Option.isNone_iff_eq_none.mp hnone]

/-- Only one-time actions matter for disjoint masks. -/
theorem pairwise_filter_isOneTime {actions : List Action} :
    (actions.filter Action.isOneTime).Pairwise Action.MasksDisjoint ↔
      actions.Pairwise Action.MasksDisjoint := by
  rw [List.pairwise_filter]
  constructor
  · refine List.Pairwise.imp fun hab m n hm hn => ?_
    exact hab (Option.isSome_of_eq_some hm) (Option.isSome_of_eq_some hn) m n hm hn
  · exact List.Pairwise.imp fun hab _ _ => hab

/-- The plain attack aside, the actions of a turn are those that fired. -/
theorem Trace.filter_isOneTime_actions (t : Trace) :
    t.actions.filter Action.isOneTime = t.emitted.filter Action.isOneTime := by
  unfold actions
  split
  · next hemitted =>
    rw [hemitted]
    rfl
  · next hemitted =>
    rw [hemitted]
    rfl
  · rfl

/-- Walks that hand the register on show actions with disjoint masks. -/
theorem UsesUp.pairwise_actions {qs : List Probe} {f g : UInt64}
    (h : UsesUp f (qs.flatMap (·.trace.visits)) g) :
    (qs.flatMap Probe.actions).Pairwise Action.MasksDisjoint := by
  have hactions : (qs.flatMap Probe.actions).filter Action.isOneTime
      = ((qs.flatMap (·.trace.visits)).filterMap (·.flow.emitted?)).filter Action.isOneTime := by
    rw [List.filter_flatMap, List.filterMap_flatMap, List.filter_flatMap]
    exact congrArg (List.flatMap · qs) (funext fun q => q.trace.filter_isOneTime_actions)
  rw [← pairwise_filter_isOneTime, hactions, pairwise_filter_isOneTime]
  exact h.pairwise_emitted

/-- The groups of a checkpoint repeat what its walks show, in order. -/
theorem HpRecord.groups_sublist (r : HpRecord) (emitted : List HpEntry) :
    (groupActions (r.groups emitted)).Sublist (r.probes.flatMap Probe.actions) := by
  have hgroups : groupActions (r.groups emitted)
      = (r.freshActions.filter fun actions => (r.hp, actions) ∉ emitted).flatten := by
    unfold groupActions HpRecord.groups
    rw [List.flatMap_map]
    exact List.flatMap_id
  have hprobes : r.probes.flatMap Probe.actions = (r.steps.map (·.probe.actions)).flatten := by
    unfold HpRecord.probes
    rw [List.flatMap_map]
    rfl
  have hfresh : r.freshActions.Sublist (r.steps.map (·.probe.actions)) :=
    List.filter_sublist.map _
  rw [hgroups, hprobes]
  exact (List.filter_sublist.trans hfresh).flatten

theorem Simulation.hpGroups_sublist (m : Simulation) :
    (groupActions m.hpGroups).Sublist ((m.hp.flatMap HpRecord.probes).flatMap Probe.actions) := by
  unfold groupActions Simulation.hpGroups
  rw [List.flatMap_assoc, List.flatMap_assoc]
  exact List.Sublist.flatMap_right _ fun r _ => r.groups_sublist m.emitted

namespace Program

/-- Before cleaning, the masks of all occurrences in HP groups are disjoint. -/
theorem IsSimulation.pairwise_hpGroups (h : p.IsSimulation level m) :
    (groupActions m.hpGroups).Pairwise Action.MasksDisjoint := by
  obtain ⟨flags, huses⟩ := p.steady.sweepHpFrom_usesUp p.sampledHp m.settled []
  have hwalks : ((m.hp.flatMap HpRecord.probes).flatMap Probe.actions).Pairwise
      Action.MasksDisjoint := by
    rw [h.hp]
    exact huses.pairwise_actions
  exact hwalks.sublist m.hpGroups_sublist

end Program

/-- **Cleaning copies no one-time action without a gate.** -/
theorem Skillset.pairwise_clean {k : Skillset}
    (h : (groupActions k.hp).Pairwise Action.MasksDisjoint) :
    ((groupActions k.clean.hp).filter (!·.isGated)).Pairwise Action.MasksDisjoint := by
  cases hne : k.isFunctionallyEmpty with
  | true =>
    rw [clean_of_empty hne]
    exact .nil
  | false =>
    -- relocation moves gated actions only, and movesets hold standing ones only
    have hperm := filter_clean_perm_relocated hne fun _ => Action.isOnlyOneTime_of_isStanding
    rw [filter_relocated fun _ => Action.isOnlyOneTime_of_isGated] at hperm
    rw [← pairwise_filter_isOneTime, List.filter_filter]
    refine (hperm.pairwise_iff Action.MasksDisjoint.symm).mpr ?_
    exact h.filter _

/-! ## What is reported -/

namespace Program

/-- **One-time actions across the phases of a summary.** What the opening move uses up is shown in
no group, and the masks of all actions of HP groups that have no HP gate are disjoint. -/
theorem one_time_actions_across_phases (p : Program) (level : UInt32) :
    ∃ summary, p.summarize level = .ok summary ∧
      (∀ a ∈ summary.skillset.preemptives, ∀ mask, a.oneTime? = some mask → mask ≠ 0 →
        ¬ summary.skillset.Shows a) ∧
      ((groupActions summary.skillset.hp).filter (!·.isGated)).Pairwise Action.MasksDisjoint := by
  obtain ⟨m, hsim, hm⟩ := p.exists_summarize level
  refine ⟨m.summary, hm, ?_, ?_⟩
  · intro a ha mask hmask hne hshows
    have hopening : a ∈ m.preemptives := m.preemptives_skillset ▸ ha
    have hself := hsim.masksDisjoint_of_mem_preemptives hopening hshows
    exact Action.not_masksDisjoint_self hmask hne hself
  · exact Skillset.pairwise_clean hsim.pairwise_hpGroups

/-- From level 5 on the enemy opens with a dispel. It enrages once, and then deals gravity. -/
def dispelFirst : Program where
  nodes := #[
    .preemptive 5,
    .action (.mk 1 (.effect .dispel) (some ⟨100, 0, none, some 1⟩)),
    .action (.mk 2 (.effect (.enrage 200 3)) (some ⟨100, 0, none, some 2⟩)),
    .action (.mk 3 (.effect (.gravity 25)) none)]
  staysWithin := by decide

-- below level 5 the dispel is not used up in the opening, and the first turn shows it
example :
    (dispelFirst.summarize 5).map (fun r => (r.skillset.preemptives, r.skillset.timed))
        = .ok ([.mk 1 (.effect .dispel) (some ⟨100, 0, none, some 1⟩)],
          [⟨1, 100, [.mk 2 (.effect (.enrage 200 3)) (some ⟨100, 0, none, some 2⟩)]⟩]) ∧
      (dispelFirst.summarize 4).map (fun r => (r.skillset.preemptives, r.skillset.timed.head?))
        = .ok ([], some ⟨1, 100, [.mk 1 (.effect .dispel) (some ⟨100, 0, none, some 1⟩)]⟩) := by
  decide +kernel

end Program

end EnemyBehavior
