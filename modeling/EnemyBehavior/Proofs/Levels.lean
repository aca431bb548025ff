import EnemyBehavior.Proofs.HpCheckpoints
import EnemyBehavior.Proofs.InStep
import EnemyBehavior.Proofs.View

/-!
# The level checkpoints stand for all levels

The level of an enemy is read by level branches and by markers of the opening move, and never
written. Between two neighbouring checkpoints no gate opens or closes, except that a branch on one
exact level may single out the checkpoint itself. From there the simulations at the checkpoint and
at any level above it, short of the next one, go in step.

## Main statements

* `Node.agree_atLevels` — a node without a gate between the levels does the same at both
* `Program.exists_checkpoint_below` — each level has a greatest checkpoint up to it
* `Program.sameLevels_of_isGreatest` — there is no gate between the level and that checkpoint
* `Program.summarize_at_checkpoint_below` — so the checkpoint stands for the level
-/

namespace EnemyBehavior

variable {p : Program} {s t : BattleState} {c l v : UInt32}

/-! ## The level in one step -/

/-- The states have these levels and are equal otherwise. -/
def BattleState.AtLevels (c l : UInt32) (s t : BattleState) : Prop :=
  s.level = c ∧ t = { s with level := l }

/-- No level gate of the node tells the two levels apart. -/
structure Node.SameLevels (c l : UInt32) (node : Node) : Prop where
  lt_iff : ∀ v, node.levelBoundary? = some v → (c < v ↔ l < v)
  eq_iff : ∀ v target, node = .branchLevel .equal v target → (c = v ↔ l = v)

namespace Node

theorem SameLevels.le_iff {node : Node} (h : node.SameLevels c l)
    (hv : node.levelBoundary? = some v) : v ≤ c ↔ v ≤ l := by
  rw [← UInt32.not_lt, ← UInt32.not_lt, h.lt_iff v hv]

theorem SameLevels.test_eq {compare : Comparison} {target : UInt64}
    (h : (branchLevel compare v target).SameLevels c l) : compare.test c v = compare.test l v := by
  cases compare with
  | less => simp only [Comparison.test, h.lt_iff v rfl]
  | equal => simp only [Comparison.test, h.eq_iff v target rfl]
  | greaterOrEqual => simp only [Comparison.test, h.le_iff rfl]

/-- **A node without a gate between the levels does the same at both.** -/
theorem agree_atLevels {node : Node} (h : node.SameLevels c l) :
    Node.Agree (BattleState.AtLevels c l) node node := by
  rintro s _ ⟨rfl, rfl⟩
  have hgates : node.SameGates s l s.enemies := by
    refine ⟨?_, ?_, fun _ _ _ => .rfl⟩
    · rintro v rfl
      exact h.le_iff rfl
    · rintro compare v target rfl
      exact h.test_eq
  have hsituation := node.after_sameSituation s
  obtain ⟨hflow, hafter⟩ := hgates.step
  refine ⟨hflow, hsituation.level, hafter.trans ?_⟩
  rw [← hsituation.enemies]

end Node

/-! ## Between walks -/

theorem BattleState.tickCountdown_at_level (s : BattleState) (l : UInt32) :
    { s with level := l }.tickCountdown = { s.tickCountdown with level := l } := by
  unfold tickCountdown
  split
  · split <;> rfl
  · rfl

/-- What happens between walks does not look at the level. -/
theorem BattleState.kept_atLevels (c l : UInt32) : KeptWithMarks (AtLevels c l) where
  hp := by
    rintro s _ ⟨-, rfl⟩
    rfl
  clearMarks := by
    rintro s _ ⟨hlevel, rfl⟩
    exact ⟨hlevel, rfl⟩
  withHp := by
    rintro s _ ⟨hlevel, rfl⟩ hp
    exact ⟨hlevel, rfl⟩
  withEnemies := by
    rintro s _ ⟨hlevel, rfl⟩ enemies
    exact ⟨hlevel, rfl⟩
  endTurn := by
    rintro s _ s' t' ⟨hlevel, rfl⟩ hs ht
    obtain ⟨-, rfl⟩ := endTurn_eq_ok_iff.mp hs
    obtain ⟨-, rfl⟩ := endTurn_eq_ok_iff.mp ht
    rw [tickCountdown_at_level s l]
    exact ⟨s.tickCountdown_sameSituation.level.trans hlevel, rfl⟩
  isPreemptive := by
    rintro s _ ⟨-, rfl⟩
    rfl
  doPreemptive := by
    rintro s _ ⟨-, rfl⟩
    rfl

/-- Cleaning up does not look at the level. -/
theorem Skillset.clean_at_level (s : Skillset) (l : UInt32) :
    { s with level := l }.clean = { s.clean with level := l } := by
  have hempty : { s with level := l }.isFunctionallyEmpty = s.isFunctionallyEmpty := rfl
  unfold clean
  rw [hempty]
  split <;> rfl

/-! ## The checkpoints -/

namespace Program

theorem mem_levels :
    v ∈ p.levels ↔ v = defaultLevel ∨ ∃ node ∈ p.toList, node.levelBoundary? = some v := by
  unfold levels
  rw [mem_ascending, List.mem_cons, List.mem_filterMap]

/-- Each level has a greatest checkpoint up to it. -/
theorem exists_checkpoint_below (p : Program) (hl : defaultLevel ≤ l) :
    ∃ c, IsGreatest {c | c ∈ p.levels ∧ c ≤ l} c := by
  have hsorted : p.levels.reverse.Pairwise (fun a b => b < a) :=
    List.pairwise_reverse.mpr (pairwise_ascending _)
  cases hfind : p.levels.reverse.find? (fun c => c ≤ l) with
  | none =>
    have hmem : defaultLevel ∈ p.levels.reverse := List.mem_reverse.mpr (mem_levels.mpr (.inl rfl))
    have hnone := List.find?_eq_none.mp hfind defaultLevel hmem
    simp [hl] at hnone
  | some c =>
    have hmem : c ∈ p.levels := List.mem_reverse.mp (List.mem_of_find?_eq_some hfind)
    have hc : c ≤ l := by simpa using List.find?_some hfind
    refine ⟨c, ⟨hmem, hc⟩, ?_⟩
    rintro d ⟨hd, hle⟩
    rcases eq_or_rel_of_find? hsorted hfind (List.mem_reverse.mpr hd) (decide_eq_true hle) with
      rfl | hlt
    · exact UInt32.le_refl _
    · exact UInt32.le_of_lt hlt

/-- **No level gate opens or closes between a level and the greatest checkpoint up to it**, unless
a branch singles out that checkpoint. -/
theorem sameLevels_of_isGreatest (hc : IsGreatest {c | c ∈ p.levels ∧ c ≤ l} c)
    (hsingle : c = l ∨ ∀ target, .branchLevel .equal c target ∉ p.toList) {node : Node}
    (hnode : node ∈ p.toList) : node.SameLevels c l := by
  have hcl : c ≤ l := hc.1.2
  refine ⟨fun v hv => ?_, ?_⟩
  · have hmem : v ∈ p.levels := mem_levels.mpr (.inr ⟨node, hnode, hv⟩)
    constructor
    · intro hcv
      by_contra hlv
      have hvc : v ≤ c := hc.2 ⟨hmem, UInt32.not_lt.mp hlv⟩
      exact UInt32.not_lt.mpr hvc hcv
    · exact fun hlv => UInt32.lt_of_le_of_lt hcl hlv
  · rintro v target rfl
    rcases hsingle with rfl | hnot
    · exact .rfl
    · have hmem : v ∈ p.levels := mem_levels.mpr (.inr ⟨_, hnode, rfl⟩)
      constructor
      · rintro rfl
        exact absurd hnode (hnot target)
      · rintro rfl
        obtain rfl : c = l := UInt32.le_antisymm hcl (hc.2 ⟨hmem, UInt32.le_refl _⟩)
        exact absurd hnode (hnot target)

/-- Simulations at levels that no gate tells apart are in step. -/
theorem simulations_inStep {m m' : Simulation}
    (hsame : ∀ node ∈ p.toList, node.SameLevels c l) (h : p.IsSimulation c m)
    (h' : p.IsSimulation l m') : m.InStep (BattleState.AtLevels c l) m' := by
  have hagree : ∀ node ∈ p.toList, Node.Agree (BattleState.AtLevels c l) node node :=
    fun node hnode => Node.agree_atLevels (hsame node hnode)
  have hopening : p.withoutPassives.Agree (BattleState.AtLevels c l) p.withoutPassives :=
    agree_self (forall_mem_blank (Node.agree_noOp _) hagree)
  have hsteady : p.steady.Agree (BattleState.AtLevels c l) p.steady :=
    agree_self (forall_mem_steady (Node.agree_noOp _) hagree)
  exact h.inStep (BattleState.kept_atLevels c l) hopening hsteady rfl rfl ⟨rfl, rfl⟩ h'

/-- Simulations in step of one program are summarized alike, but for the level. -/
theorem summary_of_inStep {R : BattleState → BattleState → Prop} {m m' : Simulation}
    (hR : BattleState.KeptWithMarks R) (hstep : m.InStep R m') (h : p.IsSimulation c m)
    (h' : p.IsSimulation l m') :
    m'.summary = { m.summary with skillset := { m.skillset with level := l } } := by
  have hdraft : m'.draft = { m.draft with level := l } := by
    rw [hstep.draft hR, h'.level, h'.program, ← h.program]
    rfl
  have hskillset : m'.skillset = { m.skillset with level := l } := by
    unfold Simulation.skillset
    rw [hdraft, Skillset.clean_at_level]
  have hfindings : m'.findings = m.findings := by
    obtain ⟨hcap, hfaults⟩ := hstep.findings
    have hunknown : m'.findings.unknownTypes = m.findings.unknownTypes := by
      show m'.program.unknownTypes = m.program.unknownTypes
      rw [h.program, h'.program]
    -- a simulated team has no cards at any level
    have hcards : m'.findings.unsimulatedCards = m.findings.unsimulatedCards := by
      show m'.program.cardCheckpoints.filter _ = m.program.cardCheckpoints.filter _
      rw [h.program, h'.program]
      rfl
    show Findings.mk m'.findings.unknownTypes m'.findings.stepCapHits m'.findings.faults
      m'.findings.unsimulatedCards = m.findings
    rw [hunknown, ← hcap, ← hfaults, hcards]
  unfold Simulation.summary
  rw [hskillset, hfindings]

/-- **The greatest checkpoint up to a level stands for the level**, unless a branch singles out that
checkpoint: what is reported at both differs in the stated level only. -/
theorem summarize_at_checkpoint_below (p : Program) {l : UInt32} (hl : 1 ≤ l) :
    ∃ c, IsGreatest {c | c ∈ p.levels ∧ c ≤ l} c ∧
      ((c = l ∨ ∀ target, .branchLevel .equal c target ∉ p.toList) →
        ∃ summary, p.summarize c = .ok summary ∧
          p.summarize l
            = .ok { summary with skillset := { summary.skillset with level := l } }) := by
  obtain ⟨c, hc⟩ := p.exists_checkpoint_below hl
  refine ⟨c, hc, fun hsingle => ?_⟩
  obtain ⟨m, hm⟩ := p.exists_simulate c
  obtain ⟨m', hm'⟩ := p.exists_simulate l
  have hsim := simulate_eq_ok_iff.mp hm
  have hsim' := simulate_eq_ok_iff.mp hm'
  have hstep : m.InStep (BattleState.AtLevels c l) m' :=
    simulations_inStep (fun node => sameLevels_of_isGreatest hc hsingle) hsim hsim'
  have hsummary := summary_of_inStep (BattleState.kept_atLevels c l) hstep hsim hsim'
  refine ⟨m.summary, ?_, ?_⟩
  · rw [summarize, hm]
    rfl
  · rw [summarize, hm']
    exact congrArg Except.ok hsummary

/-- From level 20 on the enemy has an opening move, at level 30 it enrages, and from level 40 on
it deals gravity. -/
def gatedByLevel : Program where
  nodes := #[
    .preemptive 20,
    .branchLevel .equal 30 5,
    .branchLevel .greaterOrEqual 40 6,
    .action (.mk 1 (.effect .dispel) none),
    .action (.mk 2 (.effect (.enrage 200 3)) none),
    .action (.mk 3 (.effect (.gravity 25)) none)]
  staysWithin := by decide

/-- Level 20 stands for level 25: the only branch on one exact level is at 30. -/
theorem summarize_at_checkpoint_below_of_gatedByLevel :
    (1 : UInt32) ≤ 25 ∧ ∃ summary, gatedByLevel.summarize 20 = .ok summary ∧
      gatedByLevel.summarize 25
        = .ok { summary with skillset := { summary.skillset with level := 25 } } := by
  have hl : (1 : UInt32) ≤ 25 := by decide
  obtain ⟨c, hc, hsame⟩ := summarize_at_checkpoint_below gatedByLevel hl
  have hlevels : gatedByLevel.levels = [1, 20, 30, 40] := by decide
  have htwenty : IsGreatest {d | d ∈ gatedByLevel.levels ∧ d ≤ 25} 20 := by
    rw [hlevels]
    refine ⟨by simp, ?_⟩
    rintro d ⟨hd, hle⟩
    simp only [List.mem_cons, List.not_mem_nil, or_false] at hd
    rcases hd with rfl | rfl | rfl | rfl
    · decide
    · decide
    · exact absurd hle (by decide)
    · exact absurd hle (by decide)
  obtain rfl : c = 20 := UInt32.le_antisymm (htwenty.2 hc.1) (hc.2 htwenty.1)
  refine ⟨hl, hsame (.inr fun target => ?_)⟩
  simp [gatedByLevel, toList]

end Program

end EnemyBehavior
