import EnemyBehavior.Proofs.CountSweep
import EnemyBehavior.Proofs.Phases
import Mathlib.Data.List.Forall2

/-!
# Simulations in step

Two simulations whose walks start from related states are told apart by nothing, if the relation is
kept by the nodes of both programs (`Program.Agree`) and by what happens to a state between walks
(`BattleState.Kept`). Records correspond one by one: `InStep` is defined for each kind of record,
and each sweep is followed along its own recursion.

## Main statements

* `Program.turnRecord_inStep`, `Program.IsSweep.inStep` — turns in step
* `Program.sweepHp_inStep`, `Program.sweepEnemyCounts_inStep` — the later sweeps in step
* `Program.IsSimulation.inStep` — whole simulations in step
* `Simulation.InStep.draft`, `Simulation.InStep.findings` — what is reported is the same
-/

namespace EnemyBehavior

variable {R : BattleState → BattleState → Prop} {p q : Program} {s t settled settled' : BattleState}
  {checkpoints : List UInt32}

/-- The relation is kept by all that happens to a state between walks. -/
structure BattleState.Kept (R : BattleState → BattleState → Prop) : Prop where
  hp : ∀ {s t}, R s t → s.hp = t.hp
  clearMarks : ∀ {s t}, R s t → R s.clearMarks t.clearMarks
  withHp : ∀ {s t}, R s t → ∀ hp, R { s with hp } { t with hp }
  withEnemies : ∀ {s t}, R s t → ∀ enemies, R { s with enemies } { t with enemies }
  endTurn : ∀ {s t s' t'}, R s t → s.endTurn = .ok s' → t.endTurn = .ok t' → R s' t'

/-- The relation is kept, and it sees the marks of the opening move. -/
structure BattleState.KeptWithMarks (R : BattleState → BattleState → Prop) : Prop
    extends Kept R where
  isPreemptive : ∀ {s t}, R s t → s.isPreemptive = t.isPreemptive
  doPreemptive : ∀ {s t}, R s t → s.doPreemptive = t.doPreemptive

open BattleState (Kept KeptWithMarks)

section Lists

variable {α β γ : Type} {P : α → β → Prop} {xs : List α} {ys : List β}

theorem map_eq_of_forall₂ {f : α → γ} {g : β → γ} (h : List.Forall₂ P xs ys)
    (hfg : ∀ x y, P x y → f x = g y) : xs.map f = ys.map g := by
  rw [← List.forall₂_eq_eq_eq]
  exact List.rel_map (fun x y hxy => hfg x y hxy) h

theorem countP_eq_of_forall₂ {f : α → Bool} {g : β → Bool} (h : List.Forall₂ P xs ys)
    (hfg : ∀ x y, P x y → f x = g y) : xs.countP f = ys.countP g := by
  have hfilter : List.Forall₂ P (xs.filter f) (ys.filter g) := by
    refine List.rel_filter (fun x y hxy => ?_) h
    show f x = true ↔ g y = true
    rw [hfg x y hxy]
  rw [List.countP_eq_length_filter, List.countP_eq_length_filter]
  exact hfilter.length_eq

end Lists

/-! ## Single walks -/

/-- Walks from related states along the same route, to related states. -/
structure Probe.InStep (R : BattleState → BattleState → Prop) (a b : Probe) : Prop where
  start : R a.start b.start
  trace : Trace.SameRoute R a.trace b.trace

theorem Probe.InStep.actions {a b : Probe} (h : a.InStep R b) : a.actions = b.actions :=
  h.trace.actions

theorem Probe.InStep.entry {a b : Probe} (h : a.InStep R b) (hR : Kept R) : a.entry = b.entry := by
  unfold Probe.entry
  rw [hR.hp h.start, h.actions]

theorem Program.probe_inStep (hR : Kept R) (hpq : p.Agree R q) (h : R s t) :
    (p.probe s).InStep R (q.probe t) :=
  ⟨h, trace_sameRoute hpq (hR.clearMarks h)⟩

/-! ## Turns -/

/-- Turns from related states whose walks go in step. -/
structure TurnRecord.InStep (R : BattleState → BattleState → Prop) (r r' : TurnRecord) : Prop where
  start : R r.start r'.start
  probes : List.Forall₂ (Probe.InStep R) r.probes r'.probes

namespace TurnRecord.InStep

variable {r r' : TurnRecord}

theorem map (h : r.InStep R r') (hR : Kept R) : r.map = r'.map := by
  unfold TurnRecord.map
  rw [map_eq_of_forall₂ h.probes fun _ _ hab => hab.entry hR]

theorem carried (h : r.InStep R r') : R r.carried r'.carried := by
  cases r
  cases r'
  obtain ⟨hstart, hprobes⟩ := h
  cases hprobes with
  | nil => exact hstart
  | cons hab _ => exact hab.trace.final

end TurnRecord.InStep

namespace Program

theorem turnRecord_inStep (hR : Kept R) (hpq : p.Agree R q) (h : R s t)
    (checkpoints : List UInt32) :
    (p.turnRecord checkpoints s).InStep R (q.turnRecord checkpoints t) := by
  refine ⟨h, ?_⟩
  unfold turnRecord
  rw [List.forall₂_map_left_iff, List.forall₂_map_right_iff, List.forall₂_same]
  intro hp _
  exact probe_inStep hR hpq (hR.withHp h hp)

/-- **Sweeps of equally many turns from related states go in step.** -/
theorem IsSweep.inStep (hR : Kept R) (hpq : p.Agree R q) {records records' : List TurnRecord}
    (h : p.IsSweep checkpoints s records settled) (h' : q.IsSweep checkpoints t records' settled')
    (hlength : records.length = records'.length) (hst : R s t) :
    List.Forall₂ (TurnRecord.InStep R) records records' ∧ R settled settled' := by
  induction h generalizing t records' with
  | done s =>
    cases h' with
    | done => exact ⟨.nil, hst⟩
    | turn => cases hlength
  | turn hnext _ ih =>
    cases h' with
    | done => cases hlength
    | turn hnext' hrest' =>
      have hrecord := turnRecord_inStep hR hpq hst checkpoints
      have hstarts := hR.endTurn hrecord.carried hnext hnext'
      obtain ⟨hrecords, hsettled⟩ := ih hrest' (Nat.succ.inj hlength) hstarts
      exact ⟨.cons hrecord hrecords, hsettled⟩

end Program

/-! ## Enemy counts -/

/-- Walks with one number of enemies, in step. -/
structure CountRecord.InStep (R : BattleState → BattleState → Prop) (r r' : CountRecord) :
    Prop where
  count : r.count = r'.count
  first : r.first.InStep R r'.first
  second : Option.Rel (Probe.InStep R) r.second r'.second

namespace CountRecord.InStep

variable {r r' : CountRecord}

theorem group? (h : r.InStep R r') : r.group? = r'.group? := by
  cases r
  cases r'
  obtain ⟨hcount, hfirst, hsecond⟩ := h
  cases hsecond with
  | none => rfl
  | some hab =>
    obtain rfl : _ = _ := hcount
    simp [CountRecord.group?, hfirst.actions, hab.actions]

theorem probes (h : r.InStep R r') :
    List.Forall₂ (Probe.InStep R) r.probes r'.probes := by
  cases r
  cases r'
  obtain ⟨-, hfirst, hsecond⟩ := h
  cases hsecond with
  | none => exact .cons hfirst .nil
  | some hab => exact .cons hfirst (.cons hab .nil)

end CountRecord.InStep

/-- Sweeps over enemy counts in step. -/
structure CountSweep.InStep (R : BattleState → BattleState → Prop) (c c' : CountSweep) : Prop where
  baseline : c.baseline.InStep R c'.baseline
  records : List.Forall₂ (CountRecord.InStep R) c.records c'.records

theorem CountSweep.InStep.groups {c c' : CountSweep} (h : c.InStep R c') :
    c.groups = c'.groups := by
  have hgroups := map_eq_of_forall₂ h.records fun _ _ hrr => hrr.group?
  have hmap : ∀ c : CountSweep, c.groups = (c.records.map CountRecord.group?).filterMap id := by
    intro c
    rw [List.filterMap_map]
    rfl
  rw [hmap, hmap, hgroups]

theorem CountSweep.InStep.probes {c c' : CountSweep} (h : c.InStep R c') :
    List.Forall₂ (Probe.InStep R) c.probes c'.probes :=
  .cons h.baseline (List.rel_flatMap h.records fun _ _ hrr => hrr.probes)

namespace Program

theorem countRecords_inStep (hR : Kept R) (hpq : p.Agree R q) (h : R s t) (counts : List UInt32)
    (seen : List (List Action)) :
    List.Forall₂ (CountRecord.InStep R) (p.countRecords s counts seen)
      (q.countRecords t counts seen) := by
  induction counts generalizing seen with
  | nil => exact .nil
  | cons count counts ih =>
    have hfirst := probe_inStep hR hpq (hR.withEnemies h count)
    have hsecond := probe_inStep hR hpq hfirst.trace.final
    rw [countRecords_cons, countRecords_cons, hfirst.actions]
    split
    · exact .cons ⟨rfl, hfirst, .none⟩ (ih seen)
    · have hseen : (p.probe (p.probe { s with enemies := count }).final).actions
          = (q.probe (q.probe { t with enemies := count }).final).actions := hsecond.actions
      rw [hseen]
      exact .cons ⟨rfl, hfirst, .some hsecond⟩ (ih _)

theorem sweepEnemyCounts_inStep (hR : Kept R) (hpq : p.Agree R q) (h : R s t) :
    (p.sweepEnemyCounts s).InStep R (q.sweepEnemyCounts t) := by
  have hbaseline := probe_inStep hR hpq h
  refine ⟨hbaseline, ?_⟩
  show List.Forall₂ _ (p.countRecords s enemyCounts [(p.probe s).actions])
    (q.countRecords t enemyCounts [(q.probe t).actions])
  rw [hbaseline.actions]
  exact countRecords_inStep hR hpq h _ _

end Program

/-! ## HP -/

/-- One walk of an HP sweep in step with one of another. -/
structure HpStep.InStep (R : BattleState → BattleState → Prop) (a b : HpStep) : Prop where
  probe : a.probe.InStep R b.probe
  fresh : a.fresh = b.fresh

/-- Walks at one checkpoint in step. -/
structure HpRecord.InStep (R : BattleState → BattleState → Prop) (r r' : HpRecord) : Prop where
  hp : r.hp = r'.hp
  steps : List.Forall₂ (HpStep.InStep R) r.steps r'.steps

namespace HpRecord

namespace InStep

variable {r r' : HpRecord}

theorem final (h : r.InStep R r') (hst : R s t) : R (r.final s) (r'.final t) := by
  obtain ⟨hp, steps⟩ := r
  obtain ⟨hp', steps'⟩ := r'
  obtain ⟨-, hsteps⟩ := h
  replace hsteps : List.Forall₂ (HpStep.InStep R) steps steps' := hsteps
  induction hsteps generalizing s t with
  | nil => exact hst
  | cons hab _ ih =>
    rw [final_cons, final_cons]
    exact ih hab.probe.trace.final

theorem freshActions (h : r.InStep R r') : r.freshActions = r'.freshActions := by
  obtain ⟨hp, steps⟩ := r
  obtain ⟨hp', steps'⟩ := r'
  obtain ⟨-, hsteps⟩ := h
  replace hsteps : List.Forall₂ (HpStep.InStep R) steps steps' := hsteps
  induction hsteps with
  | nil => rfl
  | cons hab _ ih =>
    rw [freshActions_cons, freshActions_cons, hab.fresh, hab.probe.actions, ih]

theorem groups (h : r.InStep R r') (emitted : List HpEntry) :
    r.groups emitted = r'.groups emitted := by
  unfold HpRecord.groups
  rw [h.freshActions, h.hp]

theorem probes (h : r.InStep R r') : List.Forall₂ (Probe.InStep R) r.probes r'.probes := by
  unfold HpRecord.probes
  rw [List.forall₂_map_left_iff, List.forall₂_map_right_iff]
  exact h.steps.imp fun _ _ hab => hab.probe

end InStep

end HpRecord

namespace Program

theorem settle_inStep (hR : Kept R) (hpq : p.Agree R q) (h : R s t) (walks : Nat)
    (seen : List (List Action)) :
    List.Forall₂ (HpStep.InStep R) (p.settle walks s seen) (q.settle walks t seen) := by
  induction walks generalizing s t seen with
  | zero => exact .nil
  | succ walks ih =>
    have hprobe := probe_inStep hR hpq h
    rw [settle_succ, settle_succ, hprobe.actions]
    split
    · exact .cons ⟨hprobe, rfl⟩ .nil
    · exact .cons ⟨hprobe, rfl⟩ (ih hprobe.trace.final _)

theorem sweepHpFrom_inStep (hR : Kept R) (hpq : p.Agree R q) (h : R s t)
    (checkpoints : List UInt32) (seen : List (List Action)) :
    List.Forall₂ (HpRecord.InStep R) (p.sweepHpFrom checkpoints s seen)
      (q.sweepHpFrom checkpoints t seen) := by
  induction checkpoints generalizing s t seen with
  | nil => exact .nil
  | cons hp checkpoints ih =>
    have hrecord : (p.hpRecord hp s seen).InStep R (q.hpRecord hp t seen) :=
      ⟨rfl, settle_inStep hR hpq (hR.withHp h hp) _ _⟩
    rw [sweepHpFrom_cons, sweepHpFrom_cons, hrecord.freshActions]
    exact .cons hrecord (ih (hrecord.final h) _)

/-- **Sweeps over HP from related states go in step.** -/
theorem sweepHp_inStep (hR : Kept R) (hpq : p.Agree R q) (h : R s t) (checkpoints : List UInt32) :
    List.Forall₂ (HpRecord.InStep R) (p.sweepHp checkpoints s) (q.sweepHp checkpoints t) :=
  sweepHpFrom_inStep hR hpq h checkpoints []

end Program

/-! ## Whole simulations -/

/-- Simulations all of whose records are in step. -/
structure Simulation.InStep (R : BattleState → BattleState → Prop) (m m' : Simulation) : Prop where
  opening : m.opening.InStep R m'.opening
  turns : List.Forall₂ (TurnRecord.InStep R) m.turns m'.turns
  counts : Option.Rel (CountSweep.InStep R) m.counts m'.counts
  hp : List.Forall₂ (HpRecord.InStep R) m.hp m'.hp

theorem afterOpening_inStep (hR : KeptWithMarks R) {opening opening' : Probe} (hst : R s t)
    (h : opening.InStep R opening') : R (afterOpening s opening) (afterOpening t opening') := by
  have hfinal : R opening.final opening'.final := h.trace.final
  unfold afterOpening
  rw [hR.isPreemptive hfinal, hR.doPreemptive hfinal]
  split
  · exact hR.clearMarks hfinal
  · exact hst

/-- **Simulations of programs that agree go in step**, if the starts of battle are related. -/
theorem Program.IsSimulation.inStep {level level' : UInt32} {m m' : Simulation}
    (hR : KeptWithMarks R) (hopening : p.withoutPassives.Agree R q.withoutPassives)
    (hsteady : p.steady.Agree R q.steady) (hsampled : p.sampledHp = q.sampledHp)
    (hcounts : p.hasEnemyCountBranch = q.hasEnemyCountBranch)
    (hstart : R (.start level) (.start level'))
    (h : p.IsSimulation level m) (h' : q.IsSimulation level' m') : m.InStep R m' := by
  have hfirst : m.opening.InStep R m'.opening := by
    rw [h.opening, h'.opening]
    exact probe_inStep hR.toKept hopening hstart
  have hsweep := h.turns
  rw [hsampled] at hsweep
  have hlength : m.turns.length = m'.turns.length := h.turnCount.trans h'.turnCount.symm
  obtain ⟨hturns, hsettled⟩ := hsweep.inStep hR.toKept hsteady h'.turns hlength
    (afterOpening_inStep hR hstart hfirst)
  refine ⟨hfirst, hturns, ?_, ?_⟩
  · rw [h.counts, h'.counts, hcounts]
    split
    · exact .some (sweepEnemyCounts_inStep hR.toKept hsteady hsettled)
    · exact .none
  · rw [h.hp, h'.hp, hsampled]
    exact sweepHp_inStep hR.toKept hsteady hsettled _

namespace Simulation.InStep

variable {m m' : Simulation}

theorem turnMaps (h : m.InStep R m') (hR : Kept R) : m.turnMaps = m'.turnMaps :=
  map_eq_of_forall₂ h.turns fun _ _ hrr => hrr.map hR

theorem preemptives (h : m.InStep R m') (hR : KeptWithMarks R) :
    m.preemptives = m'.preemptives := by
  have hfinal : R m.opening.final m'.opening.final := h.opening.trace.final
  unfold Simulation.preemptives hasOpeningMove passedMarker
  rw [hR.isPreemptive hfinal, hR.doPreemptive hfinal, h.opening.actions]

theorem enemyCountGroups (h : m.InStep R m') :
    m.counts.map CountSweep.groups = m'.counts.map CountSweep.groups := by
  cases m
  cases m'
  obtain ⟨-, -, hcounts, -⟩ := h
  cases hcounts with
  | none => rfl
  | some hcc => exact congrArg some hcc.groups

theorem hpGroups (h : m.InStep R m') (hR : Kept R) : m.hpGroups = m'.hpGroups := by
  have hemitted : m.emitted = m'.emitted := by
    unfold Simulation.emitted cycle?
    rw [h.turnMaps hR]
  have hgroups := map_eq_of_forall₂ h.hp fun _ _ hrr => hrr.groups m'.emitted
  unfold Simulation.hpGroups
  rw [hemitted, List.flatMap_def, List.flatMap_def, hgroups]

/-- **What is reported differs at most in the level and the traits.** -/
theorem draft (h : m.InStep R m') (hR : KeptWithMarks R) :
    m'.draft = { m.draft with level := m'.level, baseAbilities := m'.program.passives } := by
  have hturns := h.turnMaps hR.toKept
  unfold Simulation.draft timedGroups repeatingGroups cycle?
  rw [hturns, h.preemptives hR, h.enemyCountGroups, h.hpGroups hR.toKept]

theorem probes (h : m.InStep R m') : List.Forall₂ (Probe.InStep R) m.probes m'.probes := by
  have hcounts : List.Forall₂ (Probe.InStep R) ((m.counts.map CountSweep.probes).getD [])
      ((m'.counts.map CountSweep.probes).getD []) := by
    cases m
    cases m'
    obtain ⟨-, -, hcounts, -⟩ := h
    cases hcounts with
    | none => exact .nil
    | some hcc => exact hcc.probes
  have hturns := List.rel_flatMap h.turns fun _ _ hrr => hrr.probes
  have hhp := List.rel_flatMap h.hp fun _ _ hrr => hrr.probes
  exact List.rel_append (List.rel_append (.cons h.opening hturns) hcounts) hhp

/-- Equally many walks are cut short or meet a fault. -/
theorem findings (h : m.InStep R m') :
    m.findings.stepCapHits = m'.findings.stepCapHits ∧ m.findings.faults = m'.findings.faults := by
  constructor
  · exact countP_eq_of_forall₂ h.probes fun _ _ hab => congrArg Walk.hitStepCap hab.trace.walk
  · exact countP_eq_of_forall₂ h.probes fun _ _ hab =>
      congrArg (·.fault.isSome) hab.trace.walk

end Simulation.InStep

end EnemyBehavior
