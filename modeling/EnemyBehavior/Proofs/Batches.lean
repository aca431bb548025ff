import EnemyBehavior.Proofs.Diagnostics
import EnemyBehavior.Proofs.Phases

/-!
# Batches are the sum of their enemies

An enemy whose records decode without overflow has an outcome: one failure, or simulations at one
or more levels. The report on a batch reads the outcomes one by one, so what is reported of an
enemy does not depend on its neighbours. Batches can be split and joined, and leaving out enemies
leaves out what is reported of them.

## Main statements

* `simulateBatch_eq_ok_iff` — a batch is simulated by simulating each enemy on its own
* `BatchReport.IsSum.ofOutcomes_append` — reports on joined batches
* `EnemyOutcome.reports` — an enemy either fails once, or has a skillset for each level
* `summarizeBatch_compositional` — batches can be split, joined and thinned out
-/

namespace EnemyBehavior

variable {e : Enemy} {enemies : List Enemy} {options : LevelOptions} {o : EnemyOutcome}
  {outcomes : List EnemyOutcome}

/-! ## One enemy -/

namespace Enemy

/-- Decoding the records of the enemy does not overflow. -/
def DecodesWithoutOverflow (e : Enemy) : Prop :=
  ∀ cause, decodeBehavior e.records ≠ .error (.overflow cause)

theorem decodesWithoutOverflow_of_eq {nodes : List Node}
    (h : decodeBehavior e.records = .ok nodes) : e.DecodesWithoutOverflow := by
  intro cause hcause
  rw [h] at hcause
  cases hcause

theorem DecodesWithoutOverflow.exists_program (h : e.DecodesWithoutOverflow) :
    ∃ program, e.program = .ok program := by
  unfold program
  cases hdecode : decodeBehavior e.records with
  | error failure =>
    cases failure with
    | defect error => exact ⟨_, rfl⟩
    | overflow cause => exact absurd hdecode (h cause)
  | ok nodes => exact ⟨_, rfl⟩

end Enemy

namespace Program

variable {p : Program}

theorem exists_mapM_simulate (p : Program) (levels : List UInt32) :
    ∃ sims, levels.mapM p.simulate = .ok sims ∧ sims.length = levels.length := by
  induction levels with
  | nil => exact ⟨[], rfl, rfl⟩
  | cons level levels ih =>
    obtain ⟨m, hm⟩ := p.exists_simulate level
    obtain ⟨sims, hsims, hlength⟩ := ih
    refine ⟨m :: sims, ?_, congrArg (· + 1) hlength⟩
    rw [List.mapM_cons, hm, hsims]
    rfl

end Program

namespace Enemy

/-- A program is simulated at one level at least. -/
theorem exists_simulateProgram (e : Enemy) (options : LevelOptions) (p : Program) :
    ∃ sims, e.simulateProgram options p = .ok sims ∧ sims ≠ [] := by
  unfold simulateProgram
  split
  · obtain ⟨sims, hsims, hlength⟩ := p.exists_mapM_simulate p.levels
    refine ⟨sims, hsims, ?_⟩
    rintro rfl
    have hdefault : defaultLevel ∈ p.levels := mem_ascending.mpr List.mem_cons_self
    rw [List.length_eq_zero_iff.mp hlength.symm] at hdefault
    cases hdefault
  · obtain ⟨m, hm⟩ := p.exists_simulate (e.simulatedLevel options)
    exact ⟨[m], by rw [hm]; rfl, List.cons_ne_nil _ _⟩

/-- **Simulating an enemy overflows only if decoding does**, and gives its error, or simulations at
one or more levels. -/
theorem DecodesWithoutOverflow.exists_simulate (h : e.DecodesWithoutOverflow)
    (options : LevelOptions) :
    ∃ result, e.simulate options = .ok result ∧ result ≠ .ok [] := by
  obtain ⟨program, hprogram⟩ := h.exists_program
  unfold simulate
  rw [hprogram]
  cases program with
  | error error => exact ⟨.error error, rfl, nofun⟩
  | ok p =>
    obtain ⟨sims, hsims, hne⟩ := e.exists_simulateProgram options p
    refine ⟨.ok sims, ?_, fun heq => hne (Except.ok.inj heq)⟩
    show (Except.ok <$> e.simulateProgram options p : Except Overflow _) = _
    rw [hsims]
    rfl

end Enemy

/-! ## Outcomes -/

namespace EnemyOutcome

/-- The outcome is that of simulating its enemy. -/
def IsOutcome (options : LevelOptions) (o : EnemyOutcome) : Prop :=
  o.enemy.simulate options = .ok o.result

/-- What is reported of an enemy: the error of simulating it alone, or a skillset for each of the
levels it was simulated at. -/
inductive Reports (options : LevelOptions) (e : Enemy) :
    List EnemySummary → List EnemyFailure → Prop
  | failure (error : EnemyError) : e.simulate options = .ok (.error error) →
      Reports options e [] [⟨e.enemyId, error⟩]
  | summaries (sims : List Simulation) : e.simulate options = .ok (.ok sims) → sims ≠ [] →
      Reports options e (sims.map fun m => ⟨e.enemyId, m.skillset⟩) []

/-- **An enemy either fails once, or has a skillset for each level it was simulated at.** -/
theorem reports (h : o.IsOutcome options) (hdecodes : o.enemy.DecodesWithoutOverflow) :
    Reports options o.enemy o.summaries o.failure?.toList := by
  obtain ⟨result, hresult, hne⟩ := hdecodes.exists_simulate options
  obtain rfl : o.result = result := Except.ok.inj (h.symm.trans hresult)
  obtain ⟨enemy, result⟩ := o
  cases result with
  | error error => exact .failure error h
  | ok sims => exact .summaries sims h fun hnil => hne (congrArg Except.ok hnil)

/-- All that is reported of an enemy bears its number. -/
theorem enemyId_of_mem_summaries {x : EnemySummary} (h : x ∈ o.summaries) :
    x.enemyId = o.enemy.enemyId := by
  obtain ⟨m, -, rfl⟩ := List.mem_map.mp h
  rfl

theorem enemyId_of_failure? {x : EnemyFailure} (h : o.failure? = some x) :
    x.enemyId = o.enemy.enemyId := by
  unfold failure? at h
  split at h
  · cases h
    rfl
  · cases h

end EnemyOutcome

open EnemyOutcome (IsOutcome)

theorem simulateBatch_cons {e : Enemy} {enemies : List Enemy} :
    simulateBatch (e :: enemies) options = .ok outcomes ↔
      ∃ result rest, e.simulate options = .ok result ∧ simulateBatch enemies options = .ok rest ∧
        outcomes = ⟨e, result⟩ :: rest := by
  have hcons : simulateBatch (e :: enemies) options = (do
      let o ← (e.simulate options).map (⟨e, ·⟩)
      let rest ← simulateBatch enemies options
      return o :: rest) := List.mapM_cons
  simp only [hcons, bind_eq_ok_iff, map_eq_ok_iff]
  constructor
  · rintro ⟨_, ⟨result, hresult, rfl⟩, rest, hrest, h⟩
    exact ⟨result, rest, hresult, hrest, (Except.ok.inj h).symm⟩
  · rintro ⟨result, rest, hresult, hrest, rfl⟩
    exact ⟨_, ⟨result, hresult, rfl⟩, rest, hrest, rfl⟩

/-- **A batch is simulated by simulating each enemy on its own.** -/
theorem simulateBatch_eq_ok_iff :
    simulateBatch enemies options = .ok outcomes ↔
      outcomes.map (·.enemy) = enemies ∧ ∀ o ∈ outcomes, IsOutcome options o := by
  induction enemies generalizing outcomes with
  | nil =>
    rw [List.map_eq_nil_iff]
    constructor
    · intro h
      cases h
      exact ⟨rfl, nofun⟩
    · rintro ⟨rfl, -⟩
      rfl
  | cons e enemies ih =>
    rw [simulateBatch_cons]
    constructor
    · rintro ⟨result, rest, hresult, hrest, rfl⟩
      obtain ⟨hmap, hall⟩ := ih.mp hrest
      exact ⟨congrArg (e :: ·) hmap, List.forall_mem_cons.mpr ⟨hresult, hall⟩⟩
    · rintro ⟨hmap, hall⟩
      obtain ⟨o, rest, rfl, rfl, hrest⟩ := List.map_eq_cons_iff.mp hmap
      obtain ⟨ho, hall⟩ := List.forall_mem_cons.mp hall
      exact ⟨o.result, rest, ho, ih.mpr ⟨hrest, hall⟩, rfl⟩

theorem exists_outcomes (h : ∀ e ∈ enemies, e.DecodesWithoutOverflow)
    (options : LevelOptions) :
    ∃ outcomes : List EnemyOutcome,
      outcomes.map (·.enemy) = enemies ∧ ∀ o ∈ outcomes, IsOutcome options o := by
  induction enemies with
  | nil => exact ⟨[], rfl, nofun⟩
  | cons e enemies ih =>
    obtain ⟨he, henemies⟩ := List.forall_mem_cons.mp h
    obtain ⟨result, hresult, -⟩ := he.exists_simulate options
    obtain ⟨outcomes, hmap, hall⟩ := ih henemies
    exact ⟨⟨e, result⟩ :: outcomes, congrArg (e :: ·) hmap,
      List.forall_mem_cons.mpr ⟨hresult, hall⟩⟩

theorem summarizeBatch_of_outcomes (h : ∀ o ∈ outcomes, IsOutcome options o) :
    summarizeBatch (outcomes.map (·.enemy)) options = .ok (.ofOutcomes outcomes) := by
  rw [summarizeBatch, simulateBatch_eq_ok_iff.mpr ⟨rfl, h⟩]
  rfl

/-! ## Reports -/

namespace BatchReport

/-- The report is that on two batches one after the other, but for the enemies named as examples. -/
structure IsSum (r first second : BatchReport) : Prop where
  summaries : r.summaries = first.summaries ++ second.summaries
  failures : r.failures = first.failures ++ second.failures
  unknownTypes : r.diagnostics.unknownTypes.units
    = first.diagnostics.unknownTypes.units + second.diagnostics.unknownTypes.units
  stepCap : r.diagnostics.stepCap.units
    = first.diagnostics.stepCap.units + second.diagnostics.stepCap.units
  faults : r.diagnostics.faults.units
    = first.diagnostics.faults.units + second.diagnostics.faults.units
  cardBranches : r.diagnostics.cardBranches.units
    = first.diagnostics.cardBranches.units + second.diagnostics.cardBranches.units

/-- **The report on a joined batch is the sum of the reports.** -/
theorem IsSum.ofOutcomes_append (outcomes outcomes' : List EnemyOutcome) :
    IsSum (ofOutcomes (outcomes ++ outcomes')) (ofOutcomes outcomes) (ofOutcomes outcomes') := by
  have hsum : ∀ {tally found}, Diagnostics.Counts tally found →
      (tally (ofOutcomes (outcomes ++ outcomes')).diagnostics).units
        = (tally (ofOutcomes outcomes).diagnostics).units
          + (tally (ofOutcomes outcomes').diagnostics).units := by
    intro tally found h
    show (tally (.ofUnits ((outcomes ++ outcomes').flatMap EnemyOutcome.units))).units = _
    rw [List.flatMap_append]
    exact h.units_append _ _
  constructor
  case summaries => exact List.flatMap_append
  case failures => exact List.filterMap_append
  case unknownTypes => exact hsum Diagnostics.counts_unknownTypes
  case stepCap => exact hsum Diagnostics.counts_stepCap
  case faults => exact hsum Diagnostics.counts_faults
  case cardBranches => exact hsum Diagnostics.counts_cardBranches

/-- Leaving out enemies leaves out what is reported of them. -/
theorem ofOutcomes_filter (keep : UInt32 → Bool) (outcomes : List EnemyOutcome) :
    (ofOutcomes (outcomes.filter (keep ·.enemy.enemyId))).summaries
        = (ofOutcomes outcomes).summaries.filter (keep ·.enemyId) ∧
      (ofOutcomes (outcomes.filter (keep ·.enemy.enemyId))).failures
        = (ofOutcomes outcomes).failures.filter (keep ·.enemyId) := by
  unfold ofOutcomes
  induction outcomes with
  | nil => exact ⟨rfl, rfl⟩
  | cons o outcomes ih =>
    obtain ⟨hsummaries, hfailures⟩ := ih
    have hsame : ∀ x ∈ o.summaries, keep x.enemyId = keep o.enemy.enemyId :=
      fun x hx => congrArg keep (EnemyOutcome.enemyId_of_mem_summaries hx)
    have hsame' : ∀ x ∈ o.failure?.toList, keep x.enemyId = keep o.enemy.enemyId :=
      fun x hx => congrArg keep (EnemyOutcome.enemyId_of_failure? (Option.mem_toList.mp hx))
    simp only [List.filterMap_eq_flatMap_toList, List.flatMap_cons, List.filter_append] at *
    rw [List.filter_congr hsame, List.filter_congr hsame']
    rw [List.filter_cons]
    cases keep o.enemy.enemyId with
    | false => simp [hsummaries, hfailures]
    | true => simp [hsummaries, hfailures]

end BatchReport

/-- **Batches can be split, joined and thinned out.** If no record list overflows, the report on two
batches one after the other is the sum of the reports on each. Every enemy adds either one failure,
with the error of simulating it alone, or its skillsets, and nothing else is reported. Of some
numbers only, the same is reported as if there were no other enemies. -/
theorem summarizeBatch_compositional {xs ys : List Enemy}
    (h : ∀ e ∈ xs ++ ys, e.DecodesWithoutOverflow) (options : LevelOptions) :
    ∃ rx ry r, summarizeBatch xs options = .ok rx ∧ summarizeBatch ys options = .ok ry ∧
      summarizeBatch (xs ++ ys) options = .ok r ∧ r.IsSum rx ry ∧
      (∃ parts : List (List EnemySummary × List EnemyFailure),
        List.Forall₂ (fun e part => EnemyOutcome.Reports options e part.1 part.2) (xs ++ ys) parts ∧
        r.summaries = parts.flatMap (·.1) ∧ r.failures = parts.flatMap (·.2)) ∧
      ∀ keep : UInt32 → Bool, ∃ kept,
        summarizeBatch ((xs ++ ys).filter (keep ·.enemyId)) options = .ok kept ∧
        kept.summaries = r.summaries.filter (keep ·.enemyId) ∧
        kept.failures = r.failures.filter (keep ·.enemyId) := by
  obtain ⟨hxs, hys⟩ := List.forall_mem_append.mp h
  obtain ⟨outcomes, rfl, hx⟩ := exists_outcomes hxs options
  obtain ⟨outcomes', rfl, hy⟩ := exists_outcomes hys options
  have hall : ∀ o ∈ outcomes ++ outcomes', IsOutcome options o :=
    List.forall_mem_append.mpr ⟨hx, hy⟩
  rw [← List.map_append] at h ⊢
  refine ⟨_, _, _, summarizeBatch_of_outcomes hx, summarizeBatch_of_outcomes hy,
    summarizeBatch_of_outcomes hall, .ofOutcomes_append outcomes outcomes', ?_, fun keep => ?_⟩
  · refine ⟨(outcomes ++ outcomes').map fun o => (o.summaries, o.failure?.toList), ?_, ?_, ?_⟩
    · rw [List.forall₂_map_left_iff, List.forall₂_map_right_iff, List.forall₂_same]
      intro o ho
      exact EnemyOutcome.reports (hall o ho) (h o.enemy (List.mem_map_of_mem ho))
    · rw [List.flatMap_map]
      rfl
    · rw [List.flatMap_map, ← List.filterMap_eq_flatMap_toList]
      rfl
  · rw [List.filter_map]
    exact ⟨_, summarizeBatch_of_outcomes fun o ho => hall o (List.mem_filter.mp ho).1,
      BatchReport.ofOutcomes_filter keep _⟩

/-- An enemy that dispels, at its own level. -/
def dispellingEnemy : Enemy where
  enemyId := 1
  level := some 3
  records := [⟨100, 6, none, none, [], []⟩]

/-- An enemy with a branch that leads nowhere. -/
def strayingEnemy : Enemy where
  enemyId := 2
  level := none
  records := [⟨200, 28, some 50, some 9, [], []⟩]

/-- An enemy that fails does not disturb its neighbours, also if its number comes up again. -/
theorem summarizeBatch_compositional_of_strayingEnemy :
    (∀ e ∈ [dispellingEnemy, strayingEnemy] ++ [strayingEnemy, dispellingEnemy],
      e.DecodesWithoutOverflow) ∧
    ∃ rx ry r, summarizeBatch [dispellingEnemy, strayingEnemy] ⟨none, true⟩ = .ok rx ∧
      summarizeBatch [strayingEnemy, dispellingEnemy] ⟨none, true⟩ = .ok ry ∧
      summarizeBatch [dispellingEnemy, strayingEnemy, strayingEnemy, dispellingEnemy] ⟨none, true⟩
        = .ok r ∧ r.IsSum rx ry := by
  have hdispelling : dispellingEnemy.DecodesWithoutOverflow := by
    have hnodes : decodeBehavior dispellingEnemy.records
        = .ok [.action (.mk 100 (.effect .dispel) none)] := by decide
    exact Enemy.decodesWithoutOverflow_of_eq hnodes
  have hstraying : strayingEnemy.DecodesWithoutOverflow := by
    have hnodes : decodeBehavior strayingEnemy.records = .ok [.branchHp .less 50 9] := by decide
    exact Enemy.decodesWithoutOverflow_of_eq hnodes
  have hdecodes : ∀ e ∈ [dispellingEnemy, strayingEnemy] ++ [strayingEnemy, dispellingEnemy],
      e.DecodesWithoutOverflow := by
    simp only [List.cons_append, List.nil_append, List.forall_mem_cons]
    exact ⟨hdispelling, hstraying, hstraying, hdispelling, List.forall_mem_nil _⟩
  obtain ⟨rx, ry, r, hx, hy, hr, hsum, -⟩ := summarizeBatch_compositional hdecodes ⟨none, true⟩
  exact ⟨hdecodes, rx, ry, r, hx, hy, hr, hsum⟩

end EnemyBehavior
