import EnemyBehavior.Proofs.InStep
import EnemyBehavior.Proofs.Periodic
import EnemyBehavior.Proofs.View

/-!
# A recurring state is recognised as a cycle

What an enemy does on a turn and on all later ones depends only on the registers with which the
turn starts: its HP, its level and the rest of the scene are the same at the start of every turn,
and the number of the turn is read by no walk. So once the registers recur, the turns are periodic,
and if one more period fits into the sweep, the search finds a cycle that starts there at the
latest.

## Main statements

* `Program.IsSweep.sameScene` — every turn starts in the same scene
* `Program.IsSweep.inStep_after` — from related starts on, turns go in step
* `Program.recurring_state_has_cycle` — recurring registers make a cycle
-/

namespace EnemyBehavior

variable {p : Program} {s t u settled : BattleState} {checkpoints : List UInt32}
  {records : List TurnRecord} {r r' : TurnRecord} {i j k : Nat}

/-! ## Registers and scene -/

namespace BattleState

/-- The registers of the enemy are the same. -/
structure SameRegisters (s t : BattleState) : Prop where
  flags : s.flags = t.flags
  oneTimeFlags : s.oneTimeFlags = t.oneTimeFlags
  counter : s.counter = t.counter
  countdown : s.countdown = t.countdown

/-- The situations differ at most in the turn. -/
structure SameScene (s t : BattleState) : Prop where
  hp : s.hp = t.hp
  level : s.level = t.level
  enemies : s.enemies = t.enemies
  cards : s.cards = t.cards

theorem SameScene.symm (h : SameScene s t) : SameScene t s :=
  ⟨h.hp.symm, h.level.symm, h.enemies.symm, h.cards.symm⟩

theorem SameScene.trans (h : SameScene s t) (h' : SameScene t u) : SameScene s u :=
  ⟨h.hp.trans h'.hp, h.level.trans h'.level, h.enemies.trans h'.enemies, h.cards.trans h'.cards⟩

theorem SameSituation.sameScene (h : SameSituation s t) : SameScene s t :=
  ⟨h.hp, h.level, h.enemies, h.cards⟩

/-- Registers and scene decide about this turn and all later ones. -/
theorem SameRegisters.sameCourse (h : SameRegisters s t) (h' : SameScene s t) : SameCourse s t :=
  ⟨⟨h.flags, h.oneTimeFlags, h.counter, h'.hp, h'.level, h'.enemies, h'.cards⟩, h.countdown⟩

theorem endTurn_sameScene (h : s.endTurn = .ok t) : t.SameScene s := by
  obtain ⟨-, rfl⟩ := endTurn_eq_ok_iff.mp h
  have htick := s.tickCountdown_sameSituation.sameScene
  exact ⟨htick.hp, htick.level, htick.enemies, htick.cards⟩

theorem kept_sameCourse : Kept SameCourse where
  hp h := h.hp
  clearMarks := SameCourse.clearMarks
  withHp := SameCourse.withHp
  withEnemies := SameCourse.withEnemies
  endTurn := SameCourse.endTurn

end BattleState

/-! ## Turns of one sweep -/

namespace Program

/-- A turn that is first walked at the HP of its start carries its scene over. -/
theorem carried_sameScene (hhead : checkpoints.head? = some s.hp) :
    (p.turnRecord checkpoints s).carried.SameScene s := by
  rw [carried_of_head? hhead]
  exact (p.final_sameSituation s).sameScene

namespace IsSweep

/-- **Every turn starts in the same scene**, and the sweep ends in it, if HP is first sampled where
it stands. -/
theorem sameScene (h : p.IsSweep checkpoints s records settled)
    (hhead : checkpoints.head? = some s.hp) :
    (∀ r ∈ records, r.start.SameScene s) ∧ settled.SameScene s := by
  have hstep : ∀ t next, t.SameScene s → (p.turnRecord checkpoints t).carried.endTurn = .ok next →
      next.SameScene s := by
    intro t next ht hnext
    have hcarried : (p.turnRecord checkpoints t).carried.SameScene t :=
      carried_sameScene (by rw [ht.hp]; exact hhead)
    exact ((BattleState.endTurn_sameScene hnext).trans hcarried).trans ht
  exact h.invariant hstep ⟨rfl, rfl, rfl, rfl⟩

/-- The state that a turn carries over starts the next one. -/
theorem endTurn_carried (h : p.IsSweep checkpoints s records settled)
    (hr : records[k]? = some r) (hr' : records[k + 1]? = some r') :
    r.carried.endTurn = .ok r'.start := by
  induction h generalizing k with
  | done => cases hr
  | turn hnext hrest ih =>
    cases k with
    | succ k => exact ih hr hr'
    | zero =>
      cases hrest with
      | done => cases hr'
      | turn =>
        cases hr
        cases hr'
        exact hnext

variable {R : BattleState → BattleState → Prop}

theorem inStep_of_start (hR : BattleState.Kept R) (hp : p.Agree R p)
    (h : p.IsSweep checkpoints s records settled) (hr : r ∈ records) (hr' : r' ∈ records)
    (hstart : R r.start r'.start) : r.InStep R r' := by
  rw [h.eq_turnRecord r hr, h.eq_turnRecord r' hr']
  exact turnRecord_inStep hR hp hstart checkpoints

/-- **From related starts on, turns of a sweep go in step.** -/
theorem inStep_after (hR : BattleState.Kept R) (hp : p.Agree R p)
    (h : p.IsSweep checkpoints s records settled) (hr : records[i]? = some r)
    (hr' : records[j]? = some r') (hstart : R r.start r'.start) (n : Nat) {a b : TurnRecord}
    (ha : records[i + n]? = some a) (hb : records[j + n]? = some b) : a.InStep R b := by
  induction n generalizing a b with
  | zero =>
    rw [Nat.add_zero, hr] at ha
    rw [Nat.add_zero, hr'] at hb
    cases ha
    cases hb
    exact h.inStep_of_start hR hp (List.mem_of_getElem? hr) (List.mem_of_getElem? hr') hstart
  | succ n ih =>
    have hi : i + n < records.length := by
      have hlt := (List.getElem?_eq_some_iff.mp ha).1
      omega
    have hj : j + n < records.length := by
      have hlt := (List.getElem?_eq_some_iff.mp hb).1
      omega
    -- the turns before these are in step, so what they carry over is related
    have hbefore : records[i + n].InStep R records[j + n] :=
      ih (List.getElem?_eq_getElem hi) (List.getElem?_eq_getElem hj)
    have hnext := h.endTurn_carried (List.getElem?_eq_getElem hi) ha
    have hnext' := h.endTurn_carried (List.getElem?_eq_getElem hj) hb
    exact h.inStep_of_start hR hp (List.mem_of_getElem? ha) (List.mem_of_getElem? hb)
      (hR.endTurn hbefore.carried hnext hnext')

end IsSweep

/-! ## Simulations -/

/-- The opening leaves the scene alone. -/
theorem afterOpening_sameScene (p : Program) (level : UInt32) :
    (afterOpening (.start level) (p.probe (.start level))).SameScene (.start level) := by
  unfold afterOpening
  split
  · have hwalk := p.final_sameSituation (.start level)
    exact ((BattleState.clearMarks_sameSituation _).trans hwalk).sameScene
  · exact ⟨rfl, rfl, rfl, rfl⟩

variable {level : UInt32} {m : Simulation}

/-- Each turn of a simulation starts in the scene in which the battle starts, and so do the sweeps
after the turns. -/
theorem IsSimulation.sameScene (h : p.IsSimulation level m) :
    (∀ r ∈ m.turns, r.start.SameScene (.start level)) ∧
      m.settled.SameScene (.start level) := by
  have hscene : (afterOpening (.start level) m.opening).SameScene (.start level) := by
    rw [h.opening]
    exact p.withoutPassives.afterOpening_sameScene level
  have hhead : p.sampledHp.head? = some (afterOpening (.start level) m.opening).hp := by
    rw [hscene.hp]
    exact p.head?_sampledHp
  obtain ⟨hturns, hsettled⟩ := h.turns.sameScene hhead
  exact ⟨fun r hr => (hturns r hr).trans hscene, hsettled.trans hscene⟩

/-- From a recurring state on, the turns of a simulation are periodic. -/
theorem IsSimulation.periodicFrom (h : p.IsSimulation level m) {period : Nat}
    (hr : m.turns[i]? = some r) (hr' : m.turns[i + period]? = some r')
    (hregisters : r.start.SameRegisters r'.start) : PeriodicFrom i period m.turnMaps := by
  have hscene := h.sameScene.1 r (List.mem_of_getElem? hr)
  have hscene' := h.sameScene.1 r' (List.mem_of_getElem? hr')
  have hcourse : r.start.SameCourse r'.start := hregisters.sameCourse (hscene.trans hscene'.symm)
  intro k hik hk
  have hlater : k + period < m.turns.length := by
    rw [← List.length_map TurnRecord.map]
    exact hk
  have hearlier : k < m.turns.length := by omega
  obtain ⟨n, rfl⟩ := Nat.exists_eq_add_of_le hik
  have hshift : i + n + period = i + period + n := by omega
  have hstep : m.turns[i + n].InStep BattleState.SameCourse m.turns[i + n + period] := by
    refine h.turns.inStep_after BattleState.kept_sameCourse p.steady.agree_sameCourse hr hr'
      hcourse n (List.getElem?_eq_getElem hearlier) ?_
    rw [← hshift]
    exact List.getElem?_eq_getElem hlater
  unfold Simulation.turnMaps
  rw [List.getElem?_map, List.getElem?_map, List.getElem?_eq_getElem hearlier,
    List.getElem?_eq_getElem hlater]
  exact congrArg some (hstep.map BattleState.kept_sameCourse)

/-- **Recurring registers make a cycle.** If two turns of the sweep start with the same registers,
the turns from the first one on are periodic; if one more period fits into the sweep, a cycle is
found, and it starts no later than the first of the two turns. -/
theorem recurring_state_has_cycle (p : Program) (level : UInt32) :
    ∃ m, p.simulate level = .ok m ∧ m.turns.length = sweepTurnCount ∧
      ∀ i period r r', 1 ≤ period → i + 2 * period ≤ sweepTurnCount →
        m.turns[i]? = some r → m.turns[i + period]? = some r' →
        r.start.SameRegisters r'.start →
          (∀ k, i ≤ k → k + period < sweepTurnCount →
            m.turnMaps[k]? = m.turnMaps[k + period]?) ∧
          ∃ c, m.cycle? = some c ∧ c.start ≤ i := by
  obtain ⟨m, hm⟩ := p.exists_simulate level
  have hsim := simulate_eq_ok_iff.mp hm
  refine ⟨m, hm, hsim.turnCount, fun i period r r' hperiod hfit hr hr' hregisters => ?_⟩
  have hlength : m.turnMaps.length = sweepTurnCount := by
    rw [Simulation.turnMaps, List.length_map, hsim.turnCount]
  have hperiodic := hsim.periodicFrom hr hr' hregisters
  constructor
  · intro k hik hk
    exact hperiodic k hik (by rw [hlength]; exact hk)
  · obtain ⟨c, hc, -, hstart⟩ :=
      Cycle.exists_find?_of_periodicFrom hperiodic hperiod (by rw [hlength]; exact hfit)
    exact ⟨c, hc, by omega⟩

/-- The enemy enrages on the first turn; from then on it deals gravity and dispels by turns. -/
def alternateAfterEnrage : Program where
  nodes := #[
    .action (.mk 1 (.effect (.enrage 200 3)) (some ⟨100, 0, none, some 1⟩)),
    .flagOperation .xor 1,
    .branchFlag 1 5,
    .action (.mk 2 (.effect .dispel) none),
    .action (.mk 3 (.effect (.gravity 25)) none)]
  staysWithin := by decide

/-- Turn 4 starts with the registers of turn 2, so the cycle starts on turn 2 at the latest. -/
theorem recurring_state_has_cycle_of_alternateAfterEnrage :
    ∃ m, alternateAfterEnrage.simulate 1 = .ok m ∧ (∃ c, m.cycle? = some c ∧ c.start ≤ 1) ∧
      m.turnMaps[4]? = m.turnMaps[6]? := by
  have hruns : (alternateAfterEnrage.simulate 1).toOption.any (fun m =>
      (m.turns[1]?).isSome ∧ (m.turns[3]?).map TurnRecord.start
        = (m.turns[1]?).map fun r => { r.start with turn := 4 }) = true := by
    decide +kernel
  obtain ⟨m, hm, -, hcycle⟩ := recurring_state_has_cycle alternateAfterEnrage 1
  rw [hm] at hruns
  obtain ⟨hsome, hstart⟩ := of_decide_eq_true hruns
  obtain ⟨r, hr⟩ := Option.isSome_iff_exists.mp hsome
  rw [hr, Option.map_some] at hstart
  obtain ⟨r', hr', hsame⟩ := Option.map_eq_some_iff.mp hstart
  have hregisters : r.start.SameRegisters r'.start := by
    rw [hsame]
    exact ⟨rfl, rfl, rfl, rfl⟩
  obtain ⟨hperiodic, hfound⟩ := hcycle 1 2 r r' (by decide) (by decide) hr hr' hregisters
  exact ⟨m, hm, hfound, hperiodic 4 (by decide) (by decide)⟩

end Program

end EnemyBehavior
