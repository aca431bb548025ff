import EnemyBehavior.Proofs.Recurrence
import EnemyBehavior.Proofs.WalkBounds

/-!
# The arithmetic of a summary

Boundaries, counters and turns are words, and the words of the data may be any. Still a summary
reckons as with integers. The percentages around a boundary come after the cap at full HP, so they
stay between 0 and 100. The counter is held at the ends of its range where a sum would leave it, and
a countdown is taken from a positive counter only. The turns are numbered from 1 to 11. So nothing
overflows, and every summary is given.

## Main statements

* `Node.fitsInt64_of_mem_scanl` — reckoned in integers, the counter stays in its range
* `Program.counters_trace` — the counter during a walk is the one reckoned in integers
* `Program.mem_sampledHp` — the sampled percentages, reckoned in integers
* `Program.IsSimulation.isSampled` — the situations in which walks are started
* `Program.IsSimulation.exists_endTurn_carried` — every turn has a next one
* `Program.summary_arithmetic_exact` — the arithmetic of a summary
-/

namespace EnemyBehavior

variable {p : Program} {s t : BattleState} {level hp n c : UInt32} {m : Simulation} {q : Probe}
  {r : TurnRecord} {i : Int}

/-! ## The counter -/

/-- The integer held at the ends of the range of a signed 64-bit word. -/
def clampInt64 (i : Int) : Int := max (-9223372036854775808) (min i 9223372036854775807)

/-- What an operation makes of an integer counter. -/
def CounterOp.apply (c : Int) (value : Int64) : CounterOp → Int
  | assign => value.toInt
  | add => clampInt64 (c + value.toInt)
  | subtract => clampInt64 (c - value.toInt)

/-- What a node makes of an integer counter. -/
def Node.counterAfter (c : Int) : Node → Int
  | setCounter op value => op.apply c value
  | setCounterIf compare value => if c = compare.toInt then value.toInt else c
  | _ => c

theorem BattleState.toInt_counter_applyCounterOp (s : BattleState) (op : CounterOp)
    (value : Int64) : (s.applyCounterOp op value).counter.toInt = op.apply s.counter.toInt value := by
  cases op with
  | assign => rfl
  | add => exact toInt_nearestInt64_eq _
  | subtract => exact toInt_nearestInt64_eq _

theorem CounterOp.fitsInt64_apply (op : CounterOp) (i : Int) (value : Int64) :
    FitsInt64 (op.apply i value) := by
  have hclamp : ∀ j : Int, FitsInt64 (clampInt64 j) := by
    intro j
    unfold FitsInt64 clampInt64
    omega
  cases op with
  | assign => exact fitsInt64_toInt value
  | add => exact hclamp _
  | subtract => exact hclamp _

/-- **No node takes the integer counter out of its range.** -/
theorem Node.fitsInt64_counterAfter (hi : FitsInt64 i) (node : Node) :
    FitsInt64 (node.counterAfter i) := by
  cases node with
  | setCounter op value => exact op.fitsInt64_apply i value
  | setCounterIf compare value =>
    rw [counterAfter]
    split
    · exact fitsInt64_toInt value
    · exact hi
  | _ => exact hi

/-- So it stays in its range while nodes are executed, however many they are. -/
theorem Node.fitsInt64_of_mem_scanl (hi : FitsInt64 i) (nodes : List Node) :
    ∀ j ∈ nodes.scanl Node.counterAfter i, FitsInt64 j := by
  induction nodes generalizing i with
  | nil =>
    rw [List.scanl_nil]
    exact List.forall_mem_singleton.mpr hi
  | cons node nodes ih =>
    rw [List.scanl_cons]
    exact List.forall_mem_cons.mpr ⟨hi, ih (node.fitsInt64_counterAfter hi)⟩

/-- **A node reckons the counter as an integer.** -/
theorem Node.toInt_counter_after (node : Node) (s : BattleState) :
    (node.after s).counter.toInt = node.counterAfter s.counter.toInt := by
  cases node with
  | action a =>
    show (verdictOn a.condition s).2.counter.toInt = _
    rw [verdictOn_snd]
    rfl
  | flagOperation op mask => cases op <;> rfl
  | setCounter op value => exact s.toInt_counter_applyCounterOp op value
  | setCounterIf compare value =>
    simp only [after, counterAfter, Int64.toInt_inj]
    split <;> rfl
  | _ => rfl

namespace Trace

/-- The values of the counter: before each node, and at the end. -/
def counters (t : Trace) : List Int :=
  t.visits.map (fun v => v.before.counter.toInt) ++ [t.final.counter.toInt]

/-- The nodes executed, in order. -/
def nodes (t : Trace) : List Node := t.visits.map Visit.node

theorem counters_cons (v : Visit) (t : Trace) :
    (cons v t).counters = v.before.counter.toInt :: t.counters := rfl

theorem nodes_cons (v : Visit) (t : Trace) : (cons v t).nodes = v.node :: t.nodes := rfl

end Trace

namespace Program

theorem counters_traceFrom (p : Program) (budget position : Nat) (visited : List Nat)
    (s : BattleState) :
    (p.traceFrom budget position visited s).counters =
      (p.traceFrom budget position visited s).nodes.scanl Node.counterAfter s.counter.toInt := by
  induction budget, position, visited, s using traceFrom_induction (p := p) with
  | ranOff | revisited | cutShort => rfl
  | stopped budget position visited s node hn hv hf =>
    rw [Trace.counters_cons, Trace.nodes_cons, List.scanl_cons, ← node.toInt_counter_after]
    rfl
  | step budget position visited s node next t hn hv hf ih =>
    rw [Trace.counters_cons, Trace.nodes_cons, List.scanl_cons, ← node.toInt_counter_after, ih]

/-- **During a walk the counter goes as the nodes reckon it in integers.** -/
theorem counters_trace (p : Program) (s : BattleState) :
    (p.trace s).counters = (p.trace s).nodes.scanl Node.counterAfter s.counter.toInt :=
  p.counters_traceFrom maxSteps 1 [] s.clearMarks

end Program

/-! ## The percentages -/

namespace Program

/-- **The sampled percentages are reckoned in integers**: full HP, and each boundary, capped at
full HP, with its neighbours between 0 and 100. -/
theorem mem_sampledHp :
    c ∈ p.sampledHp ↔ c.toNat = 100 ∨ ∃ b ∈ p.withoutPassives.hpBoundaries,
      c.toNat = min b.toNat 100 ∨ c.toNat = min b.toNat 100 - 1 ∨
        c.toNat = min (min b.toNat 100 + 1) 100 := by
  have hneighbour : ∀ b, c ∈ hpNeighbourhood b ↔ c.toNat = min b.toNat 100 ∨
      c.toNat = min b.toNat 100 - 1 ∨ c.toNat = min (min b.toNat 100 + 1) 100 := by
    intro b
    have hmap : c ∈ hpNeighbourhood b ↔ c.toNat ∈ (hpNeighbourhood b).map UInt32.toNat := by
      simp only [List.mem_map, UInt32.toNat_inj, exists_eq_right]
    rw [hmap, map_toNat_hpNeighbourhood]
    simp only [List.mem_cons, List.not_mem_nil, or_false]
  have hfull : c = fullHp ↔ c.toNat = 100 := UInt32.toNat_inj.symm
  rw [sampledHp, List.mem_reverse, mem_hpCheckpoints, hfull]
  simp only [hneighbour]

theorem toNat_le_of_mem_sampledHp (h : c ∈ p.sampledHp) : c.toNat ≤ 100 := by
  rcases mem_sampledHp.mp h with h | ⟨b, -, h⟩
  · exact Nat.le_of_eq h
  · omega

end Program

/-! ## The situations that are sampled -/

/-- A situation in which an enemy of this level may be sampled. -/
structure BattleState.IsSampled (p : Program) (level : UInt32) (s : BattleState) : Prop where
  turn : 1 ≤ s.turn.toNat ∧ s.turn.toNat ≤ 11
  hp : s.hp ∈ p.sampledHp
  hp_le : s.hp.toNat ≤ 100
  level : s.level = level
  /-- All enemies are alive, or at most six remain. -/
  enemies : s.enemies.toNat = 999 ∨ 1 ≤ s.enemies.toNat ∧ s.enemies.toNat ≤ 6
  cards : s.cards = []

namespace BattleState.IsSampled

/-- What a walk changes does not count. -/
theorem of_sameSituation (h : s.IsSampled p level) (hsame : t.SameSituation s) :
    t.IsSampled p level where
  turn := by
    rw [hsame.turn]
    exact h.turn
  hp := by
    rw [hsame.hp]
    exact h.hp
  hp_le := by
    rw [hsame.hp]
    exact h.hp_le
  level := hsame.level.trans h.level
  enemies := by
    rw [hsame.enemies]
    exact h.enemies
  cards := hsame.cards.trans h.cards

theorem withHp (h : s.IsSampled p level) (hhp : hp ∈ p.sampledHp) :
    { s with hp }.IsSampled p level :=
  { h with hp := hhp, hp_le := Program.toNat_le_of_mem_sampledHp hhp }

theorem withEnemies (h : s.IsSampled p level) (hn : n ∈ enemyCounts) :
    { s with enemies := n }.IsSampled p level := by
  obtain ⟨hone, hsix⟩ := Program.mem_enemyCounts.mp hn
  exact { h with
    enemies := .inr ⟨UInt32.le_iff_toNat_le.mp hone, UInt32.le_iff_toNat_le.mp hsix⟩ }

/-- The scene of the start of a battle is sampled in the first eleven turns. -/
theorem of_sameScene_start (hscene : s.SameScene (.start level))
    (hturn : 1 ≤ s.turn.toNat ∧ s.turn.toNat ≤ 11) : s.IsSampled p level where
  turn := hturn
  hp := by
    rw [hscene.hp]
    exact List.mem_of_head? p.head?_sampledHp
  hp_le := by
    rw [hscene.hp]
    exact Nat.le_refl 100
  level := hscene.level
  enemies := by
    rw [hscene.enemies]
    exact .inl rfl
  cards := hscene.cards

end BattleState.IsSampled

namespace Program.IsSimulation

theorem turn_afterOpening (h : p.IsSimulation level m) :
    (afterOpening (.start level) m.opening).turn.toNat = 1 := by
  rw [h.opening, p.withoutPassives.afterOpening_turn level]
  rfl

/-- The ten turns of a simulation are numbered from 1. -/
theorem turn_start (h : p.IsSimulation level m) (hr : r ∈ m.turns) :
    1 ≤ r.start.turn.toNat ∧ r.start.turn.toNat ≤ 10 := by
  have hbounds := h.turns.turn_bounds.1 r hr
  rw [h.turn_afterOpening, h.turnCount, sweepTurnCount] at hbounds
  omega

/-- The sweeps after the turns are made in turn 11. -/
theorem turn_settled (h : p.IsSimulation level m) : m.settled.turn.toNat = 11 := by
  have hfinal := h.turns.turn_bounds.2
  rwa [h.turn_afterOpening, h.turnCount] at hfinal

theorem settled_isSampled (h : p.IsSimulation level m) : m.settled.IsSampled p level := by
  have hturn := h.turn_settled
  exact .of_sameScene_start h.sameScene.2 (by omega)

/-- **Walks are started in sampled situations only.** -/
theorem isSampled (h : p.IsSimulation level m) (hq : q ∈ m.probes) :
    q.start.IsSampled p level := by
  rw [Simulation.probes_eq] at hq
  rcases List.mem_cons.mp hq with rfl | hq
  · have hfirst : 1 ≤ (1 : UInt32).toNat ∧ (1 : UInt32).toNat ≤ 11 := by decide
    rw [h.opening]
    exact .of_sameScene_start ⟨rfl, rfl, rfl, rfl⟩ hfirst
  · have hwalk : ∀ t : BattleState, t.IsSampled p level →
        (p.steady.trace t).final.IsSampled p level :=
      fun t ht => ht.of_sameSituation (p.steady.final_sameSituation t)
    have hturns : ∀ r ∈ m.turns, r.start.IsSampled p level := by
      intro r hr
      have hturn := h.turn_start hr
      exact .of_sameScene_start (h.sameScene.1 r hr) (by omega)
    exact h.laterProbes_hold hwalk (fun hp hhp t ht => ht.withHp hhp)
      (fun n hn t ht => ht.withEnemies hn) hturns h.settled_isSampled q hq

/-- **Every turn has a next one**, and turn and counter have the values reckoned in integers. -/
theorem exists_endTurn_carried (h : p.IsSimulation level m) (hr : r ∈ m.turns) :
    ∃ next, r.carried.endTurn = .ok next ∧ next.turn.toNat = r.carried.turn.toNat + 1 ∧
      next.counter.toInt =
        if r.carried.countdown = true ∧ 0 < r.carried.counter.toInt
        then r.carried.counter.toInt - 1 else r.carried.counter.toInt := by
  have hcarried : r.carried.turn = r.start.turn := by
    rw [h.turns.eq_turnRecord r hr]
    exact p.steady.carried_turn p.sampledHp r.start
  have hsize : r.carried.turn.toNat + 1 < UInt32.size := by
    have hturn := h.turn_start hr
    rw [hcarried]
    show _ < 4294967296
    omega
  obtain ⟨next, hnext⟩ := BattleState.exists_endTurn hsize
  refine ⟨next, hnext, BattleState.toNat_turn_of_endTurn hnext, ?_⟩
  obtain ⟨-, rfl⟩ := BattleState.endTurn_eq_ok_iff.mp hnext
  exact r.carried.toInt_counter_tickCountdown

end Program.IsSimulation

namespace Program

/-- **The arithmetic of a summary.** Every summary is given. The percentages that are sampled are
those reckoned in integers around the boundaries. Every walk is started in turn 1 to 11, at a
sampled percentage, at the level of the enemy, against no cards, with 999 enemies or 1 to 6; its
counter goes as the nodes reckon it in integers, and never leaves its range. And at the end of each
turn the next turn and the counter have the values reckoned in integers. -/
theorem summary_arithmetic_exact (p : Program) (level : UInt32) :
    ∃ m, p.simulate level = .ok m ∧ p.summarize level = .ok m.summary ∧
      (∀ c, c ∈ p.sampledHp ↔ c.toNat = 100 ∨ ∃ b ∈ p.withoutPassives.hpBoundaries,
        c.toNat = min b.toNat 100 ∨ c.toNat = min b.toNat 100 - 1 ∨
          c.toNat = min (min b.toNat 100 + 1) 100) ∧
      (∀ q ∈ m.probes, q.start.IsSampled p level ∧
        q.trace.counters = q.trace.nodes.scanl Node.counterAfter q.start.counter.toInt ∧
        ∀ i ∈ q.trace.nodes.scanl Node.counterAfter q.start.counter.toInt, FitsInt64 i) ∧
      ∀ r ∈ m.turns, ∃ next, r.carried.endTurn = .ok next ∧
        next.turn.toNat = r.carried.turn.toNat + 1 ∧
        next.counter.toInt =
          if r.carried.countdown = true ∧ 0 < r.carried.counter.toInt
          then r.carried.counter.toInt - 1 else r.carried.counter.toInt := by
  obtain ⟨m, hsim, hsummary⟩ := p.exists_summarize level
  refine ⟨m, simulate_eq_ok_iff.mpr hsim, hsummary, fun c => mem_sampledHp, fun q hq => ?_,
    fun r hr => hsim.exists_endTurn_carried hr⟩
  refine ⟨hsim.isSampled hq, ?_, Node.fitsInt64_of_mem_scanl (fitsInt64_toInt _) q.trace.nodes⟩
  rcases hsim.probe_eq hq with hq | hq
  · rw [hq]
    exact p.withoutPassives.counters_trace q.start
  · rw [hq]
    exact p.steady.counters_trace q.start

end Program

end EnemyBehavior
