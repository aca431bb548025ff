import EnemyBehavior.Proofs.CountSweep
import EnemyBehavior.Proofs.Phases

/-!
# How far a walk can go

A branch leads to a node of its program, and any other node to the next position, so a walk leaves
the program at most by one position. It executes no node twice: what it has executed is a list of
different positions of the program, and a walk that goes on makes the list longer. Therefore a walk
is no longer than its program, and only a program of more than `maxSteps` nodes has walks that are
cut short.

## Main statements

* `Program.successor_le` — where a walk can go from a node
* `Program.VisitedWithin.length_lt` — while a node is left, fewer nodes have been visited
* `Program.trace_bounded` — the bounds of a walk
* `Program.IsSimulation.laterProbes_hold` — what is kept holds at the start of every later walk
* `Program.IsSimulation.probe_eq` — all walks of a simulation are walks of its programs, and
  those after the opening (`laterProbe_eq`) of the one without markers
-/

namespace EnemyBehavior

variable {p : Program} {s : BattleState} {budget position next : Nat} {visited : List Nat}
  {node : Node}

/-! ## Steps within the program -/

/-- A node jumps nowhere but to its target. -/
theorem Node.target?_of_flow_jump {target : UInt64} (h : node.flow s = .jump target) :
    node.target? = some target := by
  have hbranch : ∀ {taken : Bool} {t : UInt64}, Handler.branch taken t = .jump target →
      some t = some target := by
    intro taken t h
    cases taken with
    | false => cases h
    | true =>
      cases h
      rfl
  cases node with
  | branchFlag | branchHp | branchLevel | branchCounter | branchCard | branchRemainingEnemies =>
    exact hbranch h
  | action a =>
    simp only [flow] at h
    cases hverdict : (verdictOn a.condition s).1 <;> rw [hverdict] at h <;> cases h
  | countdown =>
    simp only [flow] at h
    split at h <;> cases h
  | _ => cases h

namespace Program

theorem le_length_of_node? (h : p.node? position = some node) : position ≤ p.length := by
  cases position with
  | zero => exact Nat.zero_le _
  | succ index =>
    obtain ⟨hlt, -⟩ := Array.getElem?_eq_some_iff.mp h
    exact hlt

theorem exists_node? (h : position ≤ p.length) : ∃ node, p.node? position = some node := by
  cases position with
  | zero => exact ⟨.noOp, rfl⟩
  | succ index => exact ⟨p.nodes[index], Array.getElem?_eq_getElem h⟩

@[simp] theorem length_blank (p : Program) (chosen : Node → Bool) :
    (p.blank chosen).length = p.length := by
  simp [length, blank, toList]

/-- **From a node, a walk goes on at a node of the program or right behind its last one.** -/
theorem successor_le (hn : p.node? position = some node)
    (hnext : (node.flow s).successor? position = some next) :
    1 ≤ next ∧ next ≤ p.length + 1 := by
  have hposition := le_length_of_node? hn
  cases hflow : node.flow s with
  | next | emit =>
    rw [hflow] at hnext
    cases hnext
    omega
  | jump target =>
    rw [hflow] at hnext
    cases hnext
    have htarget := Node.target?_of_flow_jump hflow
    rcases node?_eq_some hn with rfl | hmem
    · cases htarget
    · have hwithin := p.staysWithin node (Array.mem_toList_iff.mp hmem) target htarget
      have hsize : p.nodes.size = p.length := rfl
      omega
  | emitAndStop | stop =>
    rw [hflow] at hnext
    cases hnext

/-! ## Visited positions -/

/-- The positions are different ones of the program. -/
structure VisitedWithin (p : Program) (visited : List Nat) : Prop where
  nodup : visited.Nodup
  within : ∀ i ∈ visited, 1 ≤ i ∧ i ≤ p.length

namespace VisitedWithin

theorem nil (p : Program) : p.VisitedWithin [] := ⟨List.nodup_nil, by simp⟩

theorem cons (h : p.VisitedWithin visited) (hpos : 1 ≤ position) (hle : position ≤ p.length)
    (hv : position ∉ visited) : p.VisitedWithin (position :: visited) :=
  ⟨List.nodup_cons.mpr ⟨hv, h.nodup⟩, List.forall_mem_cons.mpr ⟨⟨hpos, hle⟩, h.within⟩⟩

/-- There are at most as many of them as the program has nodes. -/
theorem length_le (h : p.VisitedWithin visited) : visited.length ≤ p.length := by
  have hsubset : visited ⊆ List.range' 1 p.length := by
    intro i hi
    have hwithin := h.within i hi
    rw [List.mem_range'_1]
    omega
  have hle := (List.subperm_of_subset h.nodup hsubset).length_le
  rwa [List.length_range'] at hle

/-- **While a node is left, fewer nodes have been visited.** -/
theorem length_lt (h : p.VisitedWithin visited) (hpos : 1 ≤ position) (hle : position ≤ p.length)
    (hv : position ∉ visited) : visited.length < p.length :=
  (h.cons hpos hle hv).length_le

end VisitedWithin

end Program

/-! ## Walks -/

/-- The position at which the walk did not go on. -/
def Ending.position? : Ending → Option Nat
  | stopped => none
  | ranOff position | revisited position | cutShort position | faulted position _ _ =>
    some position

namespace Trace

/-- The positions executed, in order. -/
def positions (t : Trace) : List Nat := t.visits.map (·.position)

/-- All values of the instruction pointer: the entry, the positions executed, and the position at
which the walk did not go on. -/
def pointers (t : Trace) : List Nat := 0 :: t.positions ++ t.ending.position?.toList

/-- The trace of a walk that may execute `budget` more nodes, once `visited` have been. -/
structure Bounded (p : Program) (budget : Nat) (visited : List Nat) (t : Trace) : Prop where
  nodup : t.positions.Nodup
  fresh : ∀ i ∈ t.positions, i ∉ visited
  within : ∀ i ∈ t.positions, 1 ≤ i ∧ i ≤ p.length
  ending : ∀ i, t.ending.position? = some i → i ≤ p.length + 1
  fault? : t.fault? = none
  length_le : t.visits.length ≤ budget
  of_hitStepCap : t.hitStepCap = true →
    t.visits.length = budget ∧ visited.length + budget < p.length

/-- The bounds of a walk that begins with a visit. -/
theorem Bounded.cons {t : Trace} {v : Visit} (h : t.Bounded p budget (v.position :: visited))
    (hpos : 1 ≤ v.position) (hle : v.position ≤ p.length) (hv : v.position ∉ visited) :
    (Trace.cons v t).Bounded p (budget + 1) visited where
  nodup := List.nodup_cons.mpr ⟨fun hmem => h.fresh _ hmem List.mem_cons_self, h.nodup⟩
  fresh := List.forall_mem_cons.mpr
    ⟨hv, fun i hi hvisited => h.fresh i hi (List.mem_cons_of_mem _ hvisited)⟩
  within := List.forall_mem_cons.mpr ⟨⟨hpos, hle⟩, h.within⟩
  ending := h.ending
  fault? := h.fault?
  length_le := Nat.succ_le_succ h.length_le
  of_hitStepCap hcap := by
    obtain ⟨hlength, hlt⟩ := h.of_hitStepCap hcap
    rw [List.length_cons] at hlt
    exact ⟨congrArg (· + 1) hlength, by omega⟩

/-- The bounds of a walk that ends at once, unless it is cut short. -/
theorem Bounded.ended {e : Ending} (hend : ∀ i, e.position? = some i → i ≤ p.length + 1)
    (hfault : (Trace.ended e s).fault? = none) (hcap : (Trace.ended e s).hitStepCap = false)
    (budget : Nat) (visited : List Nat) : (Trace.ended e s).Bounded p budget visited where
  nodup := List.nodup_nil
  fresh := by simp [positions]
  within := by simp [positions]
  ending := hend
  fault? := hfault
  length_le := Nat.zero_le _
  of_hitStepCap h := by
    rw [hcap] at h
    cases h

end Trace

namespace Program

theorem traceFrom_bounded (p : Program) (budget position : Nat) (visited : List Nat)
    (s : BattleState) (hvisited : p.VisitedWithin visited) (hpos : 1 ≤ position)
    (hle : position ≤ p.length + 1) :
    (p.traceFrom budget position visited s).Bounded p budget visited := by
  induction budget, position, visited, s using traceFrom_induction (p := p) with
  | ranOff budget position visited s hn =>
    refine .ended (fun i hi => ?_) rfl rfl budget visited
    cases hi
    exact hle
  | revisited budget position visited s hv =>
    refine .ended (fun i hi => ?_) rfl rfl budget visited
    cases hi
    exact hle
  | cutShort position visited s node hn hv =>
    have hlt := hvisited.length_lt hpos (le_length_of_node? hn) hv
    refine ⟨List.nodup_nil, by simp [Trace.positions], by simp [Trace.positions], ?_, rfl,
      Nat.le_refl _, fun _ => ⟨rfl, hlt⟩⟩
    intro i hi
    cases hi
    exact hle
  | stopped budget position visited s node hn hv hf =>
    have hend : (Trace.ended .stopped (node.after s)).Bounded p budget (position :: visited) :=
      .ended (fun i hi => by cases hi) rfl rfl budget (position :: visited)
    exact hend.cons hpos (le_length_of_node? hn) hv
  | step budget position visited s node next t hn hv hf ih =>
    have hposition := le_length_of_node? hn
    obtain ⟨hnext, hnextLe⟩ := successor_le hn hf
    have hrest := ih (hvisited.cons hpos hposition hv) hnext hnextLe
    exact hrest.cons hpos hposition hv

/-- **The bounds of a walk.** -/
theorem trace_bounded (p : Program) (s : BattleState) : (p.trace s).Bounded p maxSteps [] :=
  p.traceFrom_bounded maxSteps 1 [] s.clearMarks (.nil p) (Nat.le_refl 1) (Nat.le_add_left 1 _)

end Program

namespace Trace.Bounded

variable {t : Trace}

theorem length_le_length (h : t.Bounded p budget visited) : t.visits.length ≤ p.length := by
  have hpositions : p.VisitedWithin t.positions := ⟨h.nodup, h.within⟩
  have hle := hpositions.length_le
  rwa [positions, List.length_map] at hle

theorem steps_eq (h : t.Bounded p budget visited) : t.steps = t.visits.length := by
  have hfault := h.fault?
  unfold Trace.fault? at hfault
  unfold steps
  split at hfault
  · cases hfault
  · rfl

/-- The instruction pointer leaves the program at most by one position. -/
theorem pointers_le (h : t.Bounded p budget visited) : ∀ i ∈ t.pointers, i ≤ p.length + 1 := by
  intro i hi
  rcases List.mem_append.mp hi with hi | hi
  · rcases List.mem_cons.mp hi with rfl | hi
    · exact Nat.zero_le _
    · exact Nat.le_succ_of_le (h.within i hi).2
  · exact h.ending i (Option.mem_toList.mp hi)

/-- The entry is not executed again. -/
theorem entry_notMem (h : t.Bounded p budget visited) : 0 ∉ t.positions := by
  intro hmem
  have hwithin := h.within 0 hmem
  omega

end Trace.Bounded

/-! ## Walks of a simulation -/

namespace Simulation

/-- The walks after the opening, in order. -/
def laterProbes (m : Simulation) : List Probe :=
  m.turns.flatMap TurnRecord.probes
    ++ (m.counts.map CountSweep.probes).getD []
    ++ m.hp.flatMap HpRecord.probes

theorem probes_eq (m : Simulation) : m.probes = m.opening :: m.laterProbes := rfl

end Simulation

namespace Program.IsSimulation

variable {level : UInt32} {m : Simulation} {q : Probe}

/-- **What walks and changes to the situation keep holds at the start of every later walk**, if it
holds at the start of each turn and after the last one. -/
theorem laterProbes_hold {Holds : BattleState → Prop} (h : p.IsSimulation level m)
    (hwalk : ∀ t, Holds t → Holds (p.steady.trace t).final)
    (hhp : ∀ hp ∈ p.sampledHp, ∀ t, Holds t → Holds { t with hp })
    (hcount : ∀ n ∈ enemyCounts, ∀ t, Holds t → Holds { t with enemies := n })
    (hturns : ∀ r ∈ m.turns, Holds r.start) (hsettled : Holds m.settled) :
    ∀ q ∈ m.laterProbes, Holds q.start := by
  intro q hq
  unfold Simulation.laterProbes at hq
  rcases List.mem_append.mp hq with hq | hq
  · rcases List.mem_append.mp hq with hq | hq
    · obtain ⟨r, hr, hq⟩ := List.mem_flatMap.mp hq
      have hstart := hturns r hr
      rw [h.turns.eq_turnRecord r hr] at hq
      obtain ⟨hp, hmem, rfl⟩ := List.mem_map.mp hq
      exact hhp hp hmem r.start hstart
    · rw [h.counts] at hq
      split at hq
      · exact sweepEnemyCounts_holds hwalk hsettled (fun n hn => hcount n hn _ hsettled) q hq
      · cases hq
  · obtain ⟨r, hr, hq⟩ := List.mem_flatMap.mp hq
    rw [h.hp] at hr
    exact sweepHpFrom_holds hwalk hhp hsettled hr hq

/-- Each walk after the opening is one with the markers blanked. -/
theorem laterProbe_eq (h : p.IsSimulation level m) (hq : q ∈ m.laterProbes) :
    q = p.steady.probe q.start := by
  unfold Simulation.laterProbes at hq
  rcases List.mem_append.mp hq with hq | hq
  · rcases List.mem_append.mp hq with hq | hq
    · obtain ⟨r, hr, hq⟩ := List.mem_flatMap.mp hq
      rw [h.turns.eq_turnRecord r hr] at hq
      obtain ⟨hp, -, rfl⟩ := List.mem_map.mp hq
      rfl
    · rw [h.counts] at hq
      by_cases hcounts : p.hasEnemyCountBranch = true
      · rw [if_pos hcounts] at hq
        exact sweepEnemyCounts_probe hq
      · rw [if_neg hcounts] at hq
        cases hq
  · obtain ⟨r, hr, hq⟩ := List.mem_flatMap.mp hq
    rw [h.hp] at hr
    exact (sweepHpFrom_probes hr hq).1

/-- Each walk of a simulation is one of the opening or one with the markers blanked. -/
theorem probe_eq (h : p.IsSimulation level m) (hq : q ∈ m.probes) :
    q = p.withoutPassives.probe q.start ∨ q = p.steady.probe q.start := by
  rw [Simulation.probes_eq] at hq
  rcases List.mem_cons.mp hq with rfl | hq
  · rw [h.opening]
    exact .inl rfl
  · exact .inr (h.laterProbe_eq hq)

/-- The walks of a simulation are bounded by the length of its program. -/
theorem probe_bounded (h : p.IsSimulation level m) (hq : q ∈ m.probes) :
    ∃ p', p'.length = p.length ∧ q.trace.Bounded p' maxSteps [] := by
  rcases h.probe_eq hq with hq | hq
  · refine ⟨p.withoutPassives, p.length_blank _, ?_⟩
    rw [hq]
    exact p.withoutPassives.trace_bounded q.start
  · refine ⟨p.steady, ?_, ?_⟩
    · simp [steady, withoutMarkers, withoutPassives]
    · rw [hq]
      exact p.steady.trace_bounded q.start

/-- No walk of a simulation meets a fault. -/
theorem faults_eq_zero (h : p.IsSimulation level m) : m.findings.faults = 0 := by
  show m.probes.countP (·.trace.fault?.isSome) = 0
  rw [List.countP_eq_zero]
  intro q hq
  obtain ⟨p', -, hbounded⟩ := h.probe_bounded hq
  rw [hbounded.fault?]
  simp

/-- No walk of a simulation is cut short unless its program is longer than `maxSteps`. -/
theorem stepCapHits_eq_zero (h : p.IsSimulation level m) (hlength : p.length ≤ maxSteps) :
    m.findings.stepCapHits = 0 := by
  show m.probes.countP (·.trace.hitStepCap) = 0
  rw [List.countP_eq_zero]
  intro q hq hcap
  obtain ⟨p', hp', hbounded⟩ := h.probe_bounded hq
  obtain ⟨-, hlt⟩ := hbounded.of_hitStepCap hcap
  rw [List.length_nil] at hlt
  omega

end Program.IsSimulation

end EnemyBehavior
