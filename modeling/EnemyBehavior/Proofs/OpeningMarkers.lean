import EnemyBehavior.Proofs.Blanking
import EnemyBehavior.Proofs.Provenance

/-!
# Markers of the opening move

A marker only sets the two marks that the opening walk is judged by, so a walk with markers and one
without them take the same route. Of several markers on that route the last one decides: the enemy
has an opening move if it has the level of that marker. If it has not, the opening is discarded with
its marks, and nothing is left of the markers.

## Main statements

* `Node.agree_differInMarks` — a marker and a node that does nothing differ in the marks they leave
* `Program.trace_marks` — the marks after a walk are those of the last marker it passed
* `Simulation.hasOpeningMove_iff` — the enemy has an opening move if it has the level of that marker
* `Simulation.summary_withoutMarkers` — without an opening move, its walk is not reported
* `Program.isSimulation_withoutMarkers` — a simulation without an opening move, for the program
  without markers
* `Program.unsatisfied_marker_invisible` — a marker that is not satisfied leaves no trace
-/

namespace EnemyBehavior

variable {p : Program} {s : BattleState} {level : UInt32} {m : Simulation}

/-! ## One node -/

/-- The states differ at most in the marks of the opening move. -/
def BattleState.DifferInMarks (s t : BattleState) : Prop :=
  ∃ isPreemptive doPreemptive, t = { s with isPreemptive, doPreemptive }

open BattleState (DifferInMarks)

/-- The level that a marker of the opening move asks for. -/
def Node.marker? : Node → Option UInt32
  | preemptive level => some level
  | _ => none

namespace Node

theorem marker?_eq_none {node : Node} (h : node.isPreemptive = false) : node.marker? = none := by
  cases node with
  | preemptive => cases h
  | _ => rfl

/-- No node but a marker reads or writes the marks. -/
theorem step_withMarks {node : Node} (h : node.isPreemptive = false) (s : BattleState)
    (isPreemptive doPreemptive : Bool) :
    node.flow s = node.flow { s with isPreemptive, doPreemptive } ∧
      node.after { s with isPreemptive, doPreemptive }
        = { node.after s with isPreemptive, doPreemptive } := by
  cases node with
  | preemptive => cases h
  | action a =>
    have hverdict : verdictOn a.condition { s with isPreemptive, doPreemptive } = _ :=
      verdictOn_congr a.condition (s := s) rfl rfl
    refine ⟨?_, ?_⟩
    · simp only [flow, hverdict]
    · simp only [after, hverdict]
      rw [verdictOn_snd a.condition s]
  | flagOperation op mask => cases op <;> exact ⟨rfl, rfl⟩
  | setCounter op value => cases op <;> exact ⟨rfl, rfl⟩
  | setCounterIf compare value =>
    refine ⟨rfl, ?_⟩
    simp only [after]
    split <;> rfl
  | _ => exact ⟨rfl, rfl⟩

/-- **A marker and a node that does nothing differ in the marks they leave**, and in nothing
else. -/
theorem agree_differInMarks (node : Node) :
    Node.Agree DifferInMarks node (Program.blankIf isPreemptive node) := by
  rintro s _ ⟨isPreemptive, doPreemptive, rfl⟩
  by_cases hmarker : node.isPreemptive = true
  · rw [Program.blankIf, if_pos hmarker]
    cases node with
    | preemptive level => exact ⟨rfl, isPreemptive, doPreemptive, rfl⟩
    | _ => cases hmarker
  · rw [Program.blankIf, if_neg hmarker]
    obtain ⟨hflow, hafter⟩ :=
      step_withMarks (Bool.not_eq_true _ ▸ hmarker) s isPreemptive doPreemptive
    exact ⟨hflow, isPreemptive, doPreemptive, hafter⟩

/-- A marker sets both marks, and no other node touches them. -/
theorem marks_after (node : Node) (s : BattleState) :
    (node.after s).isPreemptive = (node.marker?.isSome || s.isPreemptive) ∧
      (node.after s).doPreemptive
        = node.marker?.elim s.doPreemptive (fun v => decide (v ≤ s.level)) := by
  by_cases hmarker : node.isPreemptive = true
  · cases node with
    | preemptive v => exact ⟨rfl, rfl⟩
    | _ => cases hmarker
  · have hnot : node.isPreemptive = false := Bool.not_eq_true _ ▸ hmarker
    have hafter : node.after s
        = { node.after s with isPreemptive := s.isPreemptive, doPreemptive := s.doPreemptive } :=
      (step_withMarks hnot s s.isPreemptive s.doPreemptive).2
    rw [marker?_eq_none hnot, hafter]
    exact ⟨rfl, rfl⟩

end Node

/-! ## The last marker of a walk -/

/-- The level that the last marker on the way asks for. -/
def Trace.lastMarker? (t : Trace) : Option UInt32 :=
  (t.visits.filterMap (·.node.marker?)).getLast?

theorem Trace.lastMarker?_cons (v : Visit) (t : Trace) :
    (Trace.cons v t).lastMarker? = t.lastMarker?.or v.node.marker? := by
  unfold lastMarker?
  rw [visits_cons, List.filterMap_cons]
  cases v.node.marker? with
  | none => rw [Option.or_none]
  | some level =>
    dsimp only
    rw [List.getLast?_cons]
    cases (t.visits.filterMap (·.node.marker?)).getLast? <;> rfl

namespace Program

theorem traceFrom_marks (p : Program) (budget position : Nat) (visited : List Nat)
    (s : BattleState) :
    (p.traceFrom budget position visited s).final.isPreemptive
        = ((p.traceFrom budget position visited s).lastMarker?.isSome || s.isPreemptive) ∧
      (p.traceFrom budget position visited s).final.doPreemptive
        = (p.traceFrom budget position visited s).lastMarker?.elim s.doPreemptive
            (fun v => decide (v ≤ s.level)) := by
  induction budget, position, visited, s using traceFrom_induction (p := p) with
  | ranOff | revisited | cutShort => exact ⟨rfl, rfl⟩
  | stopped budget position visited s node hn hv hf =>
    rw [Trace.lastMarker?_cons]
    exact node.marks_after s
  | step budget position visited s node next t hn hv hf ih =>
    obtain ⟨hpassed, hlast⟩ := ih
    obtain ⟨hpassed', hlast'⟩ := node.marks_after s
    rw [Trace.lastMarker?_cons, Trace.final_cons]
    refine ⟨?_, ?_⟩
    · rw [hpassed, hpassed', Option.isSome_or, Bool.or_assoc]
    · rw [hlast, hlast', (node.after_sameSituation s).level]
      cases t.lastMarker? <;> rfl

/-- **The marks after a walk are those of the last marker it passed.** -/
theorem trace_marks (p : Program) (s : BattleState) :
    (p.trace s).final.isPreemptive = (p.trace s).lastMarker?.isSome ∧
      (p.trace s).final.doPreemptive
        = (p.trace s).lastMarker?.any (fun v => decide (v ≤ s.level)) := by
  obtain ⟨hpassed, hlast⟩ := p.traceFrom_marks maxSteps 1 [] s.clearMarks
  refine ⟨hpassed.trans (Bool.or_false _), hlast.trans ?_⟩
  show (p.trace s).lastMarker?.elim false (fun v => decide (v ≤ s.level)) = _
  cases (p.trace s).lastMarker? <;> rfl

/-- A walk of a program without markers passes none. -/
theorem lastMarker?_withoutMarkers (p : Program) (s : BattleState) :
    (p.withoutMarkers.trace s).lastMarker? = none := by
  unfold Trace.lastMarker?
  have hnone : (p.withoutMarkers.trace s).visits.filterMap (·.node.marker?) = [] := by
    rw [List.filterMap_eq_nil_iff]
    intro v hv
    rcases node?_eq_some (trace_isStep hv).node with hnode | hnode
    · rw [hnode]
      rfl
    · rcases mem_toList_blank hnode with hnode | ⟨-, hnot⟩
      · rw [hnode]
        rfl
      · exact Node.marker?_eq_none hnot
  rw [hnone]
  rfl

end Program

/-! ## Openings -/

/-- **The enemy has an opening move if it has the level of the last marker.** -/
theorem Simulation.hasOpeningMove_iff (h : p.IsSimulation level m) :
    m.hasOpeningMove = true ↔
      ∃ v, (p.withoutPassives.trace (.start level)).lastMarker? = some v ∧ v ≤ level := by
  obtain ⟨hpassed, hlast⟩ := p.withoutPassives.trace_marks (.start level)
  unfold hasOpeningMove passedMarker
  rw [h.opening]
  show ((p.withoutPassives.trace (.start level)).final.isPreemptive
    && (p.withoutPassives.trace (.start level)).final.doPreemptive) = true ↔ _
  rw [hpassed, hlast]
  cases (p.withoutPassives.trace (.start level)).lastMarker? with
  | none => simp
  | some v => simp [show (BattleState.start level).level = level from rfl]

theorem afterOpening_of_not {opening : Probe} (start : BattleState)
    (h : (opening.final.isPreemptive && opening.final.doPreemptive) = false) :
    afterOpening start opening = start := by
  unfold afterOpening
  rw [if_neg (by simp [h])]

namespace Program

/-- A marker states no action, has no HP boundary, and does not ask for the number of enemies. -/
theorem silent_isPreemptive : Silent Node.isPreemptive where
  action? node h := by
    cases node with
    | preemptive => rfl
    | _ => cases h
  hpBoundary? node h := by
    cases node with
    | preemptive => rfl
    | _ => cases h
  isEnemyCountBranch node h := by
    cases node with
    | preemptive => rfl
    | _ => cases h

/-- Without markers, the opening walk is one of the steady program. -/
theorem withoutMarkers_withoutPassives (p : Program) :
    p.withoutMarkers.withoutPassives = p.steady := blank_comm _ _ _

theorem withoutMarkers_steady (p : Program) : p.withoutMarkers.steady = p.steady := by
  show p.withoutMarkers.withoutPassives.withoutMarkers = _
  rw [withoutMarkers_withoutPassives]
  exact blank_blank_self _ _

/-- The opening walk of the program without markers leaves no mark. -/
theorem isPreemptive_steady (p : Program) (s : BattleState) :
    (p.steady.trace s).final.isPreemptive = false := by
  rw [(p.steady.trace_marks s).1, steady, lastMarker?_withoutMarkers]
  rfl

theorem cardCheckpoints_withoutMarkers (p : Program) :
    p.withoutMarkers.cardCheckpoints = p.cardCheckpoints := by
  have hnode : ∀ node : Node, node.isPreemptive = true → node.cardIds = Node.noOp.cardIds := by
    intro node hmarker
    cases node with
    | preemptive => rfl
    | _ => cases hmarker
  unfold cardCheckpoints withoutMarkers
  rw [toList_blank, List.flatMap_map]
  exact congrArg (fun f => ascending (p.toList.flatMap f)) (funext (apply_blankIf hnode))

end Program

namespace Simulation

/-- The same records, with the opening walk of the program without markers. -/
def withoutMarkers (m : Simulation) : Simulation :=
  { m with
    program := m.program.withoutMarkers
    opening := m.program.steady.probe (.start m.level) }

theorem hasOpeningMove_withoutMarkers (m : Simulation) :
    m.withoutMarkers.hasOpeningMove = false := by
  show ((m.program.steady.trace (.start m.level)).final.isPreemptive && _) = false
  rw [m.program.isPreemptive_steady]
  rfl

/-- What is reported does not look at the marks of an opening that is no opening move. -/
theorem summary_withoutMarkers (h : p.IsSimulation level m) (hmove : m.hasOpeningMove = false) :
    m.withoutMarkers.summary = m.summary := by
  have hdraft : m.withoutMarkers.draft = m.draft := by
    have hpassives : m.withoutMarkers.program.passives = m.program.passives :=
      Program.silent_isPreemptive.passives m.program
    have hopening : m.withoutMarkers.preemptives = m.preemptives := by
      unfold preemptives
      rw [hmove, m.hasOpeningMove_withoutMarkers]
      rfl
    unfold draft
    rw [hpassives, hopening]
    rfl
  have hfindings : m.withoutMarkers.findings = m.findings := by
    have hwalk : m.withoutMarkers.opening.trace.walk = m.opening.trace.walk := by
      rw [h.opening, ← h.program, ← h.level]
      exact (Program.trace_sameRoute m.program.agree_steady (.refl _)).walk.symm
    have hunknown : m.withoutMarkers.program.unknownTypes = m.program.unknownTypes :=
      Program.silent_isPreemptive.unknownTypes m.program
    have hcards : m.withoutMarkers.program.cardCheckpoints = m.program.cardCheckpoints :=
      m.program.cardCheckpoints_withoutMarkers
    have hcap : m.withoutMarkers.opening.trace.hitStepCap = m.opening.trace.hitStepCap :=
      congrArg Walk.hitStepCap hwalk
    have hfault : m.withoutMarkers.opening.trace.fault? = m.opening.trace.fault? :=
      congrArg Walk.fault hwalk
    unfold findings probes
    simp only [List.cons_append, List.countP_cons, hunknown, hcards, hcap, hfault]
    rfl
  unfold summary skillset
  rw [hdraft, hfindings]

end Simulation

namespace Program

/-- **A simulation without an opening move is one of the program without markers**, but for its
opening walk. -/
theorem isSimulation_withoutMarkers (h : p.IsSimulation level m)
    (hmove : m.hasOpeningMove = false) :
    p.withoutMarkers.IsSimulation level m.withoutMarkers := by
  obtain rfl := h.program
  obtain rfl := h.level
  have hsampled : m.program.withoutMarkers.sampledHp = m.program.sampledHp :=
    silent_isPreemptive.sampledHp m.program
  have hcount : m.program.withoutMarkers.hasEnemyCountBranch = m.program.hasEnemyCountBranch :=
    silent_isPreemptive.hasEnemyCountBranch m.program
  have hstart : afterOpening (.start m.level) m.withoutMarkers.opening
      = afterOpening (.start m.level) m.opening := by
    rw [afterOpening_of_not _ m.hasOpeningMove_withoutMarkers, afterOpening_of_not _ hmove]
  constructor
  case program | level => rfl
  case opening =>
    rw [withoutMarkers_withoutPassives]
    rfl
  case turnCount => exact h.turnCount
  case checkpoints => exact h.checkpoints.trans hsampled.symm
  case turns =>
    rw [hstart, withoutMarkers_steady, hsampled]
    exact h.turns
  case counts =>
    rw [withoutMarkers_steady, hcount]
    exact h.counts
  case hp =>
    rw [withoutMarkers_steady, hsampled]
    exact h.hp

/-- **A marker that is not satisfied leaves no trace.** A walk of the program without its markers is
told alike and leaves a state that differs in the marks of the opening move only. If the opening
passes no marker, or the level of the last one is above that of the enemy, the same is reported
without markers, and no opening move. If the enemy has the level of the last one, the opening move
is what the opening walk did. -/
theorem unsatisfied_marker_invisible (p : Program) :
    (∀ s, (p.walk s).1 = (p.withoutMarkers.walk s).1 ∧
      DifferInMarks (p.walk s).2 (p.withoutMarkers.walk s).2) ∧
    ∀ level, ∃ summary, p.summarize level = .ok summary ∧
      ((∀ v, (p.withoutPassives.trace (.start level)).lastMarker? = some v → level < v) →
        p.withoutMarkers.summarize level = .ok summary ∧ summary.skillset.preemptives = []) ∧
      ∀ v, (p.withoutPassives.trace (.start level)).lastMarker? = some v → v ≤ level →
        summary.skillset.preemptives = (p.withoutPassives.walk (.start level)).1.actions := by
  refine ⟨fun s => ?_, fun level => ?_⟩
  · have hagree : p.Agree DifferInMarks p.withoutMarkers := agree_blank Node.agree_differInMarks p
    exact walk_eq_of_agree hagree ⟨_, _, rfl⟩
  · obtain ⟨m, hm, hsummary⟩ := p.exists_summarize level
    have hreported : m.summary.skillset.preemptives = m.preemptives := m.preemptives_skillset
    refine ⟨m.summary, hsummary, fun habove => ?_, fun v hlast hv => ?_⟩
    · have hmove : m.hasOpeningMove = false := by
        rw [← Bool.not_eq_true, Simulation.hasOpeningMove_iff hm]
        rintro ⟨v, hlast, hv⟩
        exact UInt32.not_lt.mpr hv (habove v hlast)
      refine ⟨?_, hreported.trans ?_⟩
      · rw [summarize, simulate_eq_ok_iff.mpr (isSimulation_withoutMarkers hm hmove)]
        exact congrArg Except.ok (Simulation.summary_withoutMarkers hm hmove)
      · rw [Simulation.preemptives, hmove]
        rfl
    · have hmove : m.hasOpeningMove = true :=
        (Simulation.hasOpeningMove_iff hm).mpr ⟨v, hlast, hv⟩
      rw [hreported, Simulation.preemptives, if_pos hmove, hm.opening]
      rfl

/-- The opening passes a marker for level 10 and then one for level 20. -/
def twoMarkers : Program where
  nodes := #[.preemptive 10, .preemptive 20, .action (.mk 1 (.effect .dispel) none)]
  staysWithin := by decide

/-- At level 15 the second marker hides the opening move, at level 20 it lets it pass. -/
theorem unsatisfied_marker_invisible_of_twoMarkers :
    (∃ summary, twoMarkers.summarize 15 = .ok summary ∧
      twoMarkers.withoutMarkers.summarize 15 = .ok summary ∧ summary.skillset.preemptives = []) ∧
    ∃ summary, twoMarkers.summarize 20 = .ok summary ∧
      summary.skillset.preemptives = [.mk 1 (.effect .dispel) none] := by
  obtain ⟨-, hlevels⟩ := unsatisfied_marker_invisible twoMarkers
  have hlow : (twoMarkers.withoutPassives.trace (.start 15)).lastMarker? = some 20 := by
    decide +kernel
  have hhigh : (twoMarkers.withoutPassives.trace (.start 20)).lastMarker? = some 20 := by
    decide +kernel
  obtain ⟨summary, hsummary, hinvisible, -⟩ := hlevels 15
  obtain ⟨summary', hsummary', -, hmove⟩ := hlevels 20
  refine ⟨⟨summary, hsummary, hinvisible fun v hv => ?_⟩, summary', hsummary', ?_⟩
  · rw [hlow] at hv
    obtain rfl := Option.some.inj hv
    decide
  · rw [hmove 20 hhigh (UInt32.le_refl _)]
    decide +kernel

end Program

end EnemyBehavior
