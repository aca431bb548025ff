import EnemyBehavior.Proofs.Blanking
import EnemyBehavior.Proofs.Invariant

/-!
# Branches on the player's team

A branch on cards is taken if one of its cards is on the player's team, and no team is simulated: no
state of a simulation holds a card. Combos are not simulated either. So a branch on cards or on a
combo is never taken in a simulation, and does what a node does that does nothing. All that such
nodes leave behind is the finding that their cards were not simulated.

## Main statements

* `Program.keeps_noCards` — no node and nothing between walks adds a card
* `Node.agree_teamBranch` — without cards, a branch on the team does nothing
* `Program.mem_unsimulatedCards` — the cards that are reported are those of the branches
* `Program.team_branches_inert` — blanking the branches changes that report and nothing else
-/

namespace EnemyBehavior

open BattleState (SameWith)

variable {p : Program} {level : UInt32} {m m' : Simulation}

/-- Branches on the cards of the player's team, or on the combo it makes. -/
def Node.isTeamBranch : Node → Bool
  | branchCard .. | branchCombo .. => true
  | _ => false

/-- The program in which branches on the player's team do nothing. -/
def Program.withoutTeamBranches (p : Program) : Program := p.blank Node.isTeamBranch

/-- No card is on the player's team. -/
def BattleState.HasNoCards (s : BattleState) : Prop := s.cards = []

open BattleState (HasNoCards)

/-! ## Walks without cards -/

/-- **Nothing in a simulation adds a card.** -/
theorem Program.keeps_noCards (p : Program) : p.Keeps HasNoCards where
  after node _ s h := (node.after_sameSituation s).cards.trans h
  clearMarks _ h := h
  withHp _ _ h := h
  withEnemies _ _ h := h
  endTurn s next h hnext := by
    obtain ⟨-, rfl⟩ := BattleState.endTurn_eq_ok_iff.mp hnext
    exact s.tickCountdown_sameSituation.cards.trans h

theorem BattleState.HasNoCards.hasAnyCard {s : BattleState} (h : s.HasNoCards)
    (ids : List UInt32) : s.hasAnyCard ids = false := by
  unfold BattleState.hasAnyCard
  rw [h]
  simp

/-- **Without cards, a branch on the team does nothing.** -/
theorem Node.agree_teamBranch (node : Node) :
    Node.Agree (SameWith HasNoCards) node (Program.blankIf isTeamBranch node) := by
  rintro s _ ⟨rfl, hcards⟩
  by_cases hteam : node.isTeamBranch = true
  · rw [Program.blankIf, if_pos hteam]
    cases node with
    | branchCard ids target =>
      refine ⟨?_, rfl, hcards⟩
      simp only [flow, hcards.hasAnyCard ids]
      rfl
    | branchCombo combo target => exact ⟨rfl, rfl, hcards⟩
    | _ => cases hteam
  · rw [Program.blankIf, if_neg hteam]
    exact ⟨rfl, rfl, (node.after_sameSituation s).cards.trans hcards⟩

/-! ## Simulations with and without the branches -/

namespace Program

/-- A branch on the team states no action, has no HP boundary, and asks for no enemies. -/
theorem silent_isTeamBranch : Silent Node.isTeamBranch where
  action? node h := by
    cases node with
    | branchCard | branchCombo => rfl
    | _ => cases h
  hpBoundary? node h := by
    cases node with
    | branchCard | branchCombo => rfl
    | _ => cases h
  isEnemyCountBranch node h := by
    cases node with
    | branchCard | branchCombo => rfl
    | _ => cases h

/-- Simulations of a program with and without its branches on the team are in step. -/
theorem IsSimulation.inStep_withoutTeamBranches (h : p.IsSimulation level m)
    (h' : p.withoutTeamBranches.IsSimulation level m') : m.InStep (SameWith HasNoCards) m' := by
  have hopening : p.withoutPassives.Agree (SameWith HasNoCards)
      p.withoutTeamBranches.withoutPassives := by
    have hblank : p.withoutTeamBranches.withoutPassives
        = p.withoutPassives.blank Node.isTeamBranch := blank_comm _ _ _
    rw [hblank]
    exact agree_blank Node.agree_teamBranch _
  have hsteady : p.steady.Agree (SameWith HasNoCards) p.withoutTeamBranches.steady := by
    have hblank : p.withoutTeamBranches.steady = p.steady.blank Node.isTeamBranch := by
      unfold steady withoutMarkers withoutPassives withoutTeamBranches
      rw [blank_comm p, blank_comm _ Node.isTeamBranch]
    rw [hblank]
    exact agree_blank Node.agree_teamBranch _
  exact h.inStep p.keeps_noCards.keptWithMarks_sameWith hopening hsteady
    (silent_isTeamBranch.sampledHp p).symm (silent_isTeamBranch.hasEnemyCountBranch p).symm
    ⟨rfl, rfl⟩ h'

/-! ## What is reported -/

/-- **The cards that are reported are those of the branches on cards.** -/
theorem mem_unsimulatedCards (h : p.IsSimulation level m) {id : UInt32} :
    id ∈ m.findings.unsimulatedCards ↔
      ∃ ids target, .branchCard ids target ∈ p.toList ∧ id ∈ ids := by
  show id ∈ m.program.cardCheckpoints.filter (· ∉ (BattleState.start m.level).cards) ↔ _
  have hstart : (BattleState.start m.level).cards = [] := rfl
  rw [h.program, hstart]
  simp only [cardCheckpoints, List.not_mem_nil, not_false_eq_true, decide_true, List.filter_true,
    mem_ascending, List.mem_flatMap]
  constructor
  · rintro ⟨node, hnode, hid⟩
    cases node with
    | branchCard ids target => exact ⟨ids, target, hnode, hid⟩
    | _ => cases hid
  · rintro ⟨ids, target, hnode, hid⟩
    exact ⟨_, hnode, hid⟩

theorem pairwise_unsimulatedCards (m : Simulation) :
    m.findings.unsimulatedCards.Pairwise (· < ·) :=
  (pairwise_ascending _).filter _

theorem unsimulatedCards_withoutTeamBranches (h : p.withoutTeamBranches.IsSimulation level m) :
    m.findings.unsimulatedCards = [] := by
  refine List.eq_nil_iff_forall_not_mem.mpr fun id hid => ?_
  obtain ⟨ids, target, hmem, -⟩ := (mem_unsimulatedCards h).mp hid
  rcases mem_toList_blank hmem with hnoOp | ⟨-, hnot⟩
  · cases hnoOp
  · cases hnot

/-- **Branches on the player's team are inert but accounted for.** If nodes that do nothing stand in
their place, the same is reported at every level, except that no cards are found missing. In the
report on the original these are the cards of its branches, each once, in ascending order. -/
theorem team_branches_inert (p : Program) (level : UInt32) :
    ∃ summary, p.summarize level = .ok summary ∧
      p.withoutTeamBranches.summarize level
        = .ok { summary with findings := { summary.findings with unsimulatedCards := [] } } ∧
      summary.findings.unsimulatedCards.Pairwise (· < ·) ∧
      ∀ id, id ∈ summary.findings.unsimulatedCards ↔
        ∃ ids target, .branchCard ids target ∈ p.toList ∧ id ∈ ids := by
  obtain ⟨m, hm, hsummary⟩ := p.exists_summarize level
  obtain ⟨m', hm', hsummary'⟩ := p.withoutTeamBranches.exists_summarize level
  have hstep := hm.inStep_withoutTeamBranches hm'
  have hskillset : m'.skillset = m.skillset := by
    have hpassives : m'.program.passives = m.program.passives := by
      rw [hm.program, hm'.program]
      exact silent_isTeamBranch.passives p
    unfold Simulation.skillset
    rw [hstep.draft p.keeps_noCards.keptWithMarks_sameWith, hm'.level, ← hm.level, hpassives]
    rfl
  have hfindings : m'.findings = { m.findings with unsimulatedCards := [] } := by
    obtain ⟨hcap, hfaults⟩ := hstep.findings
    have hunknown : m'.findings.unknownTypes = m.findings.unknownTypes := by
      show m'.program.unknownTypes = m.program.unknownTypes
      rw [hm.program, hm'.program]
      exact silent_isTeamBranch.unknownTypes p
    have hcards := unsimulatedCards_withoutTeamBranches hm'
    show Findings.mk m'.findings.unknownTypes m'.findings.stepCapHits m'.findings.faults
      m'.findings.unsimulatedCards = _
    rw [hunknown, ← hcap, ← hfaults, hcards]
  refine ⟨m.summary, hsummary, ?_, pairwise_unsimulatedCards m, fun id => mem_unsimulatedCards hm⟩
  rw [hsummary']
  unfold Simulation.summary
  rw [hskillset, hfindings]

end Program

end EnemyBehavior
