import EnemyBehavior.Proofs.WalkBounds

/-!
# The loop behind a walk

A walk keeps no list of positions: it marks them in a table with one place for each node and one
for the entry, counts its steps from position 1 on, and compares the count with the cap. `loopFrom`
is that loop, with the cap left open. It has no result if a position has no place in the table.

Each round marks a position that was not marked, so the loop comes to an end whatever the cap is.
The positions marked are the entry and those of the nodes executed. So the loop is the walk of
`traceFrom`, and without a cap it is the one whose budget no walk of the program can use up.

## Main statements

* `Program.loop_eq` — the loop as a walk
* `Program.walk_bounded_and_safe` — a walk is bounded, never faults, and no short program
  notices the cap
-/

namespace EnemyBehavior

variable {p : Program} {cap : Option Nat} {position budget steps : Nat} {marks : Array Bool}
  {visited : List Nat} {s : BattleState} {node : Node}

/-! ## The loop -/

theorem count_false_set_lt (hin : position < marks.size) (hmark : ¬ marks[position] = true) :
    (marks.set position true).count false < marks.count false := by
  have hfalse : marks[position] = false := Bool.eq_false_iff.mpr hmark
  have hpos : 0 < marks.count false :=
    Array.count_pos_iff.mpr (hfalse ▸ Array.getElem_mem hin)
  rw [Array.count_set hin]
  simp only [hfalse, beq_self_eq_true, if_true]
  show marks.count false - 1 + 0 < marks.count false
  omega

/-- Puts a visit in front of a trace. The entry is not recorded. -/
def Trace.record (v : Visit) (t : Trace) : Trace := if v.position = 0 then t else .cons v t

namespace Program

/-- Walks on from a position. `steps` is the number of nodes executed so far, the entry not
counted. -/
def loopFrom (p : Program) (cap : Option Nat) (position : Nat) (marks : Array Bool) (steps : Nat)
    (s : BattleState) : Option Trace :=
  match p.node? position with
  | none => some (.ended (.ranOff position) s)
  | some node =>
    if hin : position < marks.size then
      if hmark : marks[position] = true then some (.ended (.revisited position) s)
      else if position ≠ 0 ∧ cap.any (· ≤ steps) then some (.ended (.cutShort position) s)
      else match node.execute s with
        | .error fault => some (.ended (.faulted position node fault) s)
        | .ok (flow, s') =>
          let visit : Visit := ⟨position, node, s, flow, s'⟩
          match flow.successor? position with
          | none => some (.record visit (.ended .stopped s'))
          | some next =>
            (p.loopFrom cap next (marks.set position true)
              (if position = 0 then steps else steps + 1) s').map (.record visit)
    else none
termination_by marks.count false
decreasing_by exact count_false_set_lt hin hmark

/-- Walks the program once. Without a cap, only the marks end a walk that goes on and on. -/
def loop (p : Program) (cap : Option Nat) (s : BattleState) : Option Trace :=
  p.loopFrom cap 0 (Array.replicate (p.length + 1) false) 0 s.clearMarks

/-! ## One round -/

theorem loopFrom_of_none (hn : p.node? position = none) :
    p.loopFrom cap position marks steps s = some (.ended (.ranOff position) s) := by
  unfold loopFrom
  rw [hn]

theorem loopFrom_of_marked (hn : p.node? position = some node) (hin : position < marks.size)
    (hmark : marks[position] = true) :
    p.loopFrom cap position marks steps s = some (.ended (.revisited position) s) := by
  unfold loopFrom
  rw [hn]
  simp only [dif_pos hin, dif_pos hmark]

theorem loopFrom_of_cap (hn : p.node? position = some node) (hin : position < marks.size)
    (hmark : ¬ marks[position] = true) (hcap : position ≠ 0 ∧ cap.any (· ≤ steps)) :
    p.loopFrom cap position marks steps s = some (.ended (.cutShort position) s) := by
  unfold loopFrom
  rw [hn]
  simp only [dif_pos hin, dif_neg hmark, if_pos hcap]

/-- The round of a node that is executed. -/
theorem loopFrom_step (hn : p.node? position = some node) (hin : position < marks.size)
    (hmark : ¬ marks[position] = true) (hcap : ¬ (position ≠ 0 ∧ cap.any (· ≤ steps))) :
    p.loopFrom cap position marks steps s =
      match (node.flow s).successor? position with
      | none =>
        some (.record ⟨position, node, s, node.flow s, node.after s⟩
          (.ended .stopped (node.after s)))
      | some next =>
        (p.loopFrom cap next (marks.set position true)
          (if position = 0 then steps else steps + 1) (node.after s)).map
          (.record ⟨position, node, s, node.flow s, node.after s⟩) := by
  rw [loopFrom, hn]
  simp only [dif_pos hin, dif_neg hmark, if_neg hcap, node.execute_eq]

/-! ## The marks -/

/-- The entry and the visited positions are marked. -/
structure Tracks (p : Program) (marks : Array Bool) (visited : List Nat) : Prop where
  size : marks.size = p.length + 1
  mark_iff : ∀ i (hi : i < marks.size), marks[i] = true ↔ i = 0 ∨ i ∈ visited

namespace Tracks

/-- Every node has a place in the table. -/
theorem lt_size (h : p.Tracks marks visited) (hn : p.node? position = some node) :
    position < marks.size := by
  have hle := le_length_of_node? hn
  have hsize := h.size
  omega

theorem not_marked (h : p.Tracks marks visited) (hin : position < marks.size)
    (hpos : 1 ≤ position) (hv : position ∉ visited) : ¬ marks[position] = true := by
  rw [h.mark_iff position hin]
  rintro (rfl | hmem)
  · cases hpos
  · exact hv hmem

theorem set (h : p.Tracks marks visited) (hin : position < marks.size) :
    p.Tracks (marks.set position true) (position :: visited) := by
  refine ⟨by rw [Array.size_set]; exact h.size, fun i hi => ?_⟩
  rw [Array.size_set] at hi
  rw [Array.getElem_set, List.mem_cons]
  by_cases heq : position = i
  · simp [heq]
  · have hne : i ≠ position := fun h => heq h.symm
    rw [if_neg heq, h.mark_iff i hi, or_iff_right hne]

/-- After the entry nothing else is marked. -/
theorem entry (p : Program) (hin : 0 < (Array.replicate (p.length + 1) false).size) :
    p.Tracks ((Array.replicate (p.length + 1) false).set 0 true hin) [] := by
  refine ⟨by simp, fun i hi => ?_⟩
  rw [Array.getElem_set]
  by_cases hzero : 0 = i
  · simp [← hzero]
  · have hne : i ≠ 0 := fun h => hzero h.symm
    simp [hzero, hne]

end Tracks

/-! ## The loop as a walk -/

/-- The budget is what the cap leaves, or without a cap more than the walk needs. -/
structure Allows (p : Program) (cap : Option Nat) (steps budget : Nat) (visited : List Nat) :
    Prop where
  capped : ∀ c, cap = some c → c = steps + budget
  uncapped : cap = none → p.length ≤ visited.length + budget

theorem Allows.succ (h : p.Allows cap steps (budget + 1) visited) (position : Nat) :
    p.Allows cap (steps + 1) budget (position :: visited) := by
  refine ⟨fun c hc => ?_, fun hc => ?_⟩
  · have hcapped := h.capped c hc
    omega
  · have huncapped := h.uncapped hc
    rw [List.length_cons]
    omega

theorem Allows.not_cut (h : p.Allows cap steps (budget + 1) visited) :
    ¬ (position ≠ 0 ∧ cap.any (· ≤ steps)) := by
  rintro ⟨-, hany⟩
  cases hc : cap with
  | none =>
    rw [hc] at hany
    cases hany
  | some c =>
    have hcapped := h.capped c hc
    rw [hc, Option.any_some, decide_eq_true_eq] at hany
    omega

/-- **From position 1 on, the loop is a walk.** -/
theorem loopFrom_eq_traceFrom (cap : Option Nat) (budget position : Nat) (visited : List Nat)
    (s : BattleState) :
    ∀ {marks : Array Bool} {steps : Nat}, p.Tracks marks visited → p.VisitedWithin visited →
      p.Allows cap steps budget visited → 1 ≤ position →
      p.loopFrom cap position marks steps s = some (p.traceFrom budget position visited s) := by
  induction budget, position, visited, s using traceFrom_induction (p := p) with
  | ranOff budget position visited s hn =>
    intro marks steps _ _ _ _
    exact loopFrom_of_none hn
  | revisited budget position visited s hv =>
    intro marks steps htracks hvisited _ hpos
    obtain ⟨node, hn⟩ := exists_node? (hvisited.within position hv).2
    have hin := htracks.lt_size hn
    exact loopFrom_of_marked hn hin ((htracks.mark_iff position hin).mpr (.inr hv))
  | cutShort position visited s node hn hv =>
    intro marks steps htracks hvisited hallows hpos
    have hlt := hvisited.length_lt hpos (le_length_of_node? hn) hv
    have hin := htracks.lt_size hn
    have hmark := htracks.not_marked hin hpos hv
    cases hc : cap with
    | none =>
      have hfree := hallows.uncapped hc
      omega
    | some c =>
      have hcapped := hallows.capped c hc
      refine loopFrom_of_cap hn hin hmark ⟨by omega, ?_⟩
      rw [Option.any_some, decide_eq_true_eq]
      omega
  | stopped budget position visited s node hn hv hf =>
    intro marks steps htracks _ hallows hpos
    have hin := htracks.lt_size hn
    have hmark := htracks.not_marked hin hpos hv
    have hne : position ≠ 0 := by omega
    rw [loopFrom_step hn hin hmark hallows.not_cut, hf]
    simp only [Trace.record, if_neg hne]
  | step budget position visited s node next t hn hv hf ih =>
    intro marks steps htracks hvisited hallows hpos
    have hin := htracks.lt_size hn
    have hmark := htracks.not_marked hin hpos hv
    have hne : position ≠ 0 := by omega
    have hrest := ih (htracks.set hin) (hvisited.cons hpos (le_length_of_node? hn) hv)
      (hallows.succ position) (successor_le hn hf).1
    rw [loopFrom_step hn hin hmark hallows.not_cut, hf]
    simp only [if_neg hne, hrest, Option.map_some, Trace.record]

/-- **The loop is the walk with the budget that its cap leaves.** -/
theorem loop_eq (hallows : p.Allows cap 0 budget []) (s : BattleState) :
    p.loop cap s = some (p.traceFrom budget 1 [] s.clearMarks) := by
  have hin : 0 < (Array.replicate (p.length + 1) false).size := by simp
  have hmark : ¬ (Array.replicate (p.length + 1) false)[0] = true := by simp
  have hentry : p.node? 0 = some .noOp := rfl
  have hrest := loopFrom_eq_traceFrom cap budget 1 [] s.clearMarks (Tracks.entry p hin) (.nil p)
    hallows (Nat.le_refl 1)
  unfold loop
  rw [loopFrom_step hentry hin hmark (fun h => h.1 rfl)]
  show (p.loopFrom cap 1 _ 0 s.clearMarks).map _ = _
  rw [hrest]
  rfl

theorem loop_maxSteps (p : Program) (s : BattleState) :
    p.loop (some maxSteps) s = some (p.trace s) := by
  have hallows : p.Allows (some maxSteps) 0 maxSteps [] := by
    constructor
    · intro c hc
      cases hc
      exact (Nat.zero_add maxSteps).symm
    · intro hc
      cases hc
  exact loop_eq hallows s

theorem loop_none (h : p.length ≤ maxSteps) (s : BattleState) :
    p.loop none s = some (p.trace s) := by
  have hallows : p.Allows none 0 maxSteps [] := by
    constructor
    · intro c hc
      cases hc
    · intro _
      rw [List.length_nil, Nat.zero_add]
      exact h
  exact loop_eq hallows s

/-- **A walk is bounded and safe.** The loop never looks for a mark that is not there; the
instruction pointer leaves the program at most by one position; no position is executed twice; no
node is refused; the walk has at most as many steps as the program has nodes, and is cut short only
after `maxSteps` of them, in a longer program. A program that is not longer is walked as if there
were no cap. So summaries report no faults, and cut walks of longer programs only. -/
theorem walk_bounded_and_safe (p : Program) (s : BattleState) :
    p.loop (some maxSteps) s = some (p.trace s) ∧
      (∀ i ∈ (p.trace s).pointers, i ≤ p.length + 1) ∧
      (0 :: (p.trace s).positions).Nodup ∧
      (p.walk s).1.fault = none ∧
      (p.walk s).1.steps ≤ min p.length maxSteps ∧
      ((p.walk s).1.hitStepCap = true →
        (p.walk s).1.steps = maxSteps ∧ maxSteps < p.length) ∧
      (p.length ≤ maxSteps → p.loop none s = p.loop (some maxSteps) s) ∧
      ∀ level, ∃ summary, p.summarize level = .ok summary ∧
        summary.findings.faults = 0 ∧
        (p.length ≤ maxSteps → summary.findings.stepCapHits = 0) := by
  have hbounded := p.trace_bounded s
  have hsteps : (p.walk s).1.steps = (p.trace s).visits.length := hbounded.steps_eq
  refine ⟨p.loop_maxSteps s, hbounded.pointers_le, ?_, hbounded.fault?, ?_, fun hcap => ?_,
    fun hlength => ?_, fun level => ?_⟩
  · exact List.nodup_cons.mpr ⟨hbounded.entry_notMem, hbounded.nodup⟩
  · rw [hsteps]
    exact Nat.le_min.mpr ⟨hbounded.length_le_length, hbounded.length_le⟩
  · obtain ⟨hlength, hlt⟩ := hbounded.of_hitStepCap hcap
    rw [List.length_nil, Nat.zero_add] at hlt
    exact ⟨hsteps.trans hlength, hlt⟩
  · rw [loop_none hlength, loop_maxSteps]
  · obtain ⟨m, hm⟩ := p.exists_simulate level
    have hsim := simulate_eq_ok_iff.mp hm
    refine ⟨m.summary, ?_, hsim.faults_eq_zero, hsim.stepCapHits_eq_zero⟩
    rw [summarize, hm]
    rfl

end Program

end EnemyBehavior
