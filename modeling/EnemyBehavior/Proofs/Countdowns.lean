import EnemyBehavior.Proofs.Play
import EnemyBehavior.Proofs.View

/-!
# A countdown runs down

A program that begins with a countdown node waits: each walk reports how many turns are left and
stops, and the end of the turn lowers the counter, unless a node of the program sets it. On the turn
on which one is left the walk passes the node, as if it were not there. Once nothing is left the
countdown reports zero on every turn: it is set running by each walk, and stopped by the end of the
turn without a change of the counter.

## Main statements

* `Program.final_of_countdown` — a walk that begins with a countdown leaves it running, and the
  counter as it was
* `BattleState.counter_endTurn` — the end of a turn lowers a running countdown, down to zero
* `BattleState.counter_of_play` — the counter after a number of turns
* `Program.countdown_runs_down` — what is reported on each turn
-/

namespace EnemyBehavior

variable {p : Program} {s next final : BattleState} {node : Node}

/-! ## The counter during a walk -/

/-- The node sets the counter. -/
def Node.setsCounter : Node → Bool
  | setCounter .. | setCounterIf .. => true
  | _ => false

/-- No node of the program sets the counter. -/
def Program.KeepsCounter (p : Program) : Prop := ∀ node ∈ p.toList, node.setsCounter = false

instance (p : Program) : Decidable p.KeepsCounter :=
  inferInstanceAs (Decidable (∀ node ∈ p.toList, node.setsCounter = false))

theorem Node.counter_after (h : node.setsCounter = false) (s : BattleState) :
    (node.after s).counter = s.counter := by
  cases node with
  | action a =>
    show (verdictOn a.condition s).2.counter = _
    rw [verdictOn_snd]
  | flagOperation op mask => cases op <;> rfl
  | setCounter | setCounterIf => cases h
  | _ => rfl

namespace Program

/-- The walk begins with the countdown node, and 999 more may follow. -/
theorem trace_of_countdown (hfirst : p.node? 1 = some .countdown) (s : BattleState) :
    p.trace s = .cons ⟨1, .countdown, s.clearMarks, Node.countdown.flow s.clearMarks,
        { s.clearMarks with countdown := true }⟩
      (p.continueFrom 999 1 [] (Node.countdown.flow s.clearMarks)
        { s.clearMarks with countdown := true }) :=
  traceFrom_succ hfirst List.not_mem_nil

/-- **A walk that begins with a countdown leaves it running**, and the counter as it was. -/
theorem final_of_countdown (hfirst : p.node? 1 = some .countdown) (hkeeps : p.KeepsCounter)
    (s : BattleState) :
    (p.trace s).final.counter = s.counter ∧ (p.trace s).final.countdown = true := by
  have hstep : ∀ node ∈ p.toList, ∀ t : BattleState, t.counter = s.counter ∧ t.countdown = true →
      (node.after t).counter = s.counter ∧ (node.after t).countdown = true := by
    rintro node hnode t ⟨hcounter, hcountdown⟩
    rw [Node.counter_after (hkeeps node hnode), Node.countdown_after, hcounter, hcountdown]
    exact ⟨rfl, rfl⟩
  rw [trace_of_countdown hfirst, Trace.final_cons]
  exact continueFrom_final_holds hstep 999 1 [] _ _ ⟨rfl, rfl⟩

end Program

/-! ## The counter at the end of a turn -/

namespace BattleState

/-- **The end of a turn lowers a running countdown**, down to zero. -/
theorem counter_endTurn (hrunning : s.countdown = true) (hcounter : 0 ≤ s.counter.toInt)
    (h : s.endTurn = .ok next) : next.counter.toInt = max (s.counter.toInt - 1) 0 := by
  obtain ⟨-, rfl⟩ := endTurn_eq_ok_iff.mp h
  show s.tickCountdown.counter.toInt = _
  rw [toInt_counter_tickCountdown]
  split
  · omega
  · next hstill =>
    have hpos : ¬0 < s.counter.toInt := fun hpos => hstill ⟨hrunning, hpos⟩
    omega

end BattleState

/-- A walk and the end of a turn, a number of times. -/
def turnsOf (p : Program) : (turns : Nat) → List Move
  | 0 => []
  | turns + 1 => .walk p :: .endTurn :: turnsOf p turns

theorem endedTurns_turnsOf (p : Program) (turns : Nat) : endedTurns (turnsOf p turns) = turns := by
  induction turns with
  | zero => rfl
  | succ turns ih => exact congrArg (· + 1) ih

/-- **The counter after a number of turns.** -/
theorem BattleState.counter_of_play {turns : Nat} {traces : List Trace}
    (hfirst : p.node? 1 = some .countdown) (hkeeps : p.KeepsCounter)
    (hcounter : 0 ≤ s.counter.toInt) (h : s.play (turnsOf p turns) = .ok (traces, final)) :
    final.counter.toInt = max (s.counter.toInt - turns) 0 := by
  induction turns generalizing s traces with
  | zero =>
    cases h
    simp [hcounter]
  | succ turns ih =>
    obtain ⟨rest, hrest, rfl⟩ := play_walk_eq_ok_iff.mp h
    obtain ⟨next, hnext, hrest⟩ := play_endTurn_eq_ok_iff.mp hrest
    obtain ⟨hsame, hrunning⟩ := Program.final_of_countdown hfirst hkeeps s
    have hlower := counter_endTurn hrunning (by rw [hsame]; exact hcounter) hnext
    rw [hsame] at hlower
    rw [ih (by omega) hrest, hlower]
    push_cast
    omega

/-! ## What is reported -/

namespace Program

/-- The program with a node that does nothing in place of its first one. -/
def withoutFirst (p : Program) : Program where
  nodes := (p.toList.set 0 .noOp).toArray
  staysWithin := by
    intro node hnode
    rw [List.size_toArray, List.length_set]
    rcases List.mem_or_eq_of_mem_set (List.mem_toArray.mp hnode) with hmem | rfl
    · exact p.staysWithin node (Array.mem_toList_iff.mp hmem)
    · exact fun t ht => nomatch ht

theorem node?_withoutFirst {position : Nat} (h : position ≠ 1) :
    p.withoutFirst.node? position = p.node? position := by
  cases position with
  | zero => rfl
  | succ index =>
    have hindex : 0 ≠ index := by omega
    simp [node?, withoutFirst, toList, hindex]

theorem node?_withoutFirst_one (h : p.node? 1 = some node) :
    p.withoutFirst.node? 1 = some .noOp := by
  obtain ⟨hsize, -⟩ := Array.getElem?_eq_some_iff.mp h
  simp [node?, withoutFirst, toList, hsize]

/-- States that look the same to a walk, with one turn left to wait. -/
def OneLeft (s t : BattleState) : Prop := s.SameView t ∧ s.counter = 1

/-- **With one turn left, the countdown is a node that does nothing.** -/
theorem agree_withoutFirst (hfirst : p.node? 1 = some .countdown) (hkeeps : p.KeepsCounter) :
    p.Agree OneLeft p.withoutFirst := by
  intro position
  by_cases hposition : position = 1
  · -- the countdown lets the walk pass, and sets running what no walk reads
    rw [hposition, hfirst, node?_withoutFirst_one hfirst]
    refine .some fun s t h => ⟨?_, ?_, h.2⟩
    · show (if s.counter = 1 then _ else _) = Flow.next
      rw [if_pos h.2]
    · exact ⟨h.1.flags, h.1.oneTimeFlags, h.1.counter, h.1.hp, h.1.level, h.1.enemies, h.1.cards⟩
  · rw [node?_withoutFirst hposition]
    cases hnode : p.node? position with
    | none => exact .none
    | some node =>
      have hkept : node.setsCounter = false :=
        forall_node? (P := fun node => node.setsCounter = false) rfl hkeeps hnode
      refine .some fun s t h => ?_
      obtain ⟨hflow, hafter⟩ := node.agree_sameView s t h.1
      exact ⟨hflow, hafter, (Node.counter_after hkept s).trans h.2⟩

/-- On the turn on which one is left, the walk passes the countdown as if it were not there. -/
theorem walk_withoutFirst (hfirst : p.node? 1 = some .countdown) (hkeeps : p.KeepsCounter)
    (hcounter : s.counter = 1) : (p.walk s).1 = (p.withoutFirst.walk s).1 :=
  (walk_eq_of_agree (agree_withoutFirst hfirst hkeeps) ⟨.refl s.clearMarks, hcounter⟩).1

/-- On all other turns, the walk reports how many are left and stops. -/
theorem actions_of_countdown (hfirst : p.node? 1 = some .countdown) (hcounter : s.counter ≠ 1) :
    (p.walk s).1.actions = [.countdown s.counter] := by
  have hflow : Node.countdown.flow s.clearMarks = .emitAndStop (.countdown s.counter) :=
    if_neg hcounter
  show (p.trace s).actions = _
  rw [trace_of_countdown hfirst, hflow]
  rfl

/-- **A countdown runs down turn by turn.** After `n` walks and ends of turns, the next walk reports
how many of the turns are left, down to zero, and does nothing else. Only if one turn is left it
goes on, and all that is told of it is told of the program without its first node. -/
theorem countdown_runs_down (hfirst : p.node? 1 = some .countdown) (hkeeps : p.KeepsCounter)
    (hcounter : 1 ≤ s.counter.toInt) {n : Nat} (hturn : s.turn.toNat + n < UInt32.size) :
    ∃ traces now, s.play (turnsOf p n) = .ok (traces, now) ∧
      (s.counter.toInt - n ≠ 1 → ∃ remaining : Int64,
        remaining.toInt = max (s.counter.toInt - n) 0 ∧
          (p.walk now).1.actions = [.countdown remaining]) ∧
      (s.counter.toInt - n = 1 → (p.walk now).1 = (p.withoutFirst.walk now).1) := by
  obtain ⟨⟨traces, now⟩, hplay⟩ : ∃ r, s.play (turnsOf p n) = .ok r := by
    rw [BattleState.exists_play_iff, endedTurns_turnsOf]
    exact hturn
  have hleft : now.counter.toInt = max (s.counter.toInt - n) 0 :=
    BattleState.counter_of_play hfirst hkeeps (by omega) hplay
  have hone : now.counter = 1 ↔ now.counter.toInt = 1 := Int64.toInt_inj.symm
  refine ⟨traces, now, hplay, fun hmore => ⟨now.counter, hleft, ?_⟩, fun hlast => ?_⟩
  · refine actions_of_countdown hfirst fun h => hmore ?_
    rw [hone] at h
    omega
  · exact walk_withoutFirst hfirst hkeeps (hone.mpr (by omega))

/-- The enemy waits before it dispels. -/
def waitThenDispel : Program where
  nodes := #[.countdown, .action (.mk 1 (.effect .dispel) none)]
  staysWithin := by decide

/-- With two turns to wait, the enemy dispels on the second turn, and reports zero on the fourth. -/
theorem countdown_runs_down_of_waitThenDispel :
    waitThenDispel.node? 1 = some .countdown ∧ waitThenDispel.KeepsCounter ∧
      (∃ traces now, { BattleState.start 1 with counter := 2 }.play (turnsOf waitThenDispel 1)
          = .ok (traces, now) ∧
        (waitThenDispel.walk now).1.actions = [.mk 1 (.effect .dispel) none]) ∧
      ∃ traces now, { BattleState.start 1 with counter := 2 }.play (turnsOf waitThenDispel 3)
          = .ok (traces, now) ∧
        (waitThenDispel.walk now).1.actions = [.countdown 0] := by
  have hkeeps : waitThenDispel.KeepsCounter := by decide
  refine ⟨rfl, hkeeps, ?_, ?_⟩
  · obtain ⟨traces, now, hplay, -, hlast⟩ :=
      countdown_runs_down (p := waitThenDispel) (s := { BattleState.start 1 with counter := 2 })
        (n := 1) rfl hkeeps (by decide) (by decide)
    refine ⟨traces, now, hplay, ?_⟩
    rw [hlast (by decide)]
    rfl
  · obtain ⟨traces, now, hplay, hmore, -⟩ :=
      countdown_runs_down (p := waitThenDispel) (s := { BattleState.start 1 with counter := 2 })
        (n := 3) rfl hkeeps (by decide) (by decide)
    obtain ⟨remaining, hremaining, hactions⟩ := hmore (by decide)
    obtain rfl : remaining = 0 := Int64.toInt_inj.mp hremaining
    exact ⟨traces, now, hplay, hactions⟩

end Program

end EnemyBehavior
