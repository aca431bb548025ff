import EnemyBehavior.Proofs.Periodic
import EnemyBehavior.Proofs.Phases

/-!
# How far a cycle is known to repeat

The search for a cycle compares the turns behind a range with that range, one whole copy after
another. Turns at the end of the sweep that no longer fill a copy are not compared with anything.
So a cycle that is found repeats to the end of its last whole copy. It repeats to the end of the
sweep exactly if the turns left over begin one more copy, and there are cycles that do not.

## Main statements

* `Cycle.getElem?_eq_body` — every whole copy shows what the cycle shows
* `Cycle.periodicFrom_iff_leftover` — the cycles that repeat to the end
* `Program.cycle_repeats_in_whole_copies` — what is known of the cycle of an enemy
* `Program.cycle_breaks_off` — a cycle that does not repeat to the end
-/

namespace EnemyBehavior

variable {turns : List TurnMap} {c : Cycle} {k n j : Nat}

namespace Cycle

/-! ## Whole copies and the turns left over -/

/-- The turn at which the last whole copy of the cycle ends. -/
def copiesEnd (c : Cycle) (turns : List TurnMap) : Nat := c.stop + c.copies turns * c.period

/-- The turns behind the last whole copy. -/
def leftover (c : Cycle) (turns : List TurnMap) : List TurnMap := turns.drop (c.copiesEnd turns)

theorem copiesEnd_le (hstop : c.stop ≤ turns.length) : c.copiesEnd turns ≤ turns.length := by
  have hcopies : c.copies turns * c.period ≤ turns.length - c.stop := Nat.div_mul_le_self _ _
  unfold copiesEnd
  omega

/-- Fewer turns are left over than a copy takes. -/
theorem length_lt_copiesEnd (hlt : c.start < c.stop) :
    turns.length < c.copiesEnd turns + c.period := by
  have hperiod : 0 < c.period := Nat.sub_pos_of_lt hlt
  have hcopies : turns.length - c.stop < c.period * (c.copies turns + 1) :=
    Nat.lt_mul_div_succ _ hperiod
  rw [Nat.mul_add, Nat.mul_one, Nat.mul_comm] at hcopies
  unfold copiesEnd
  omega

/-- The cycle itself counts as a copy. -/
theorem copiesEnd_eq (hlt : c.start < c.stop) (turns : List TurnMap) :
    c.copiesEnd turns = c.start + (c.copies turns + 1) * c.period := by
  rw [copiesEnd, ← start_add_period hlt]
  ring

theorem repeats_of_find? (h : find? turns = some c) :
    c ∈ candidates turns ∧ c.repeats turns = true := by
  have hfound := List.find?_some h
  rw [Bool.and_eq_true] at hfound
  exact ⟨List.mem_of_find?_eq_some h, hfound.2⟩

section Repeats

variable (hlt : c.start < c.stop) (hrepeats : c.repeats turns = true)

include hrepeats in
theorem copies_pos : 0 < c.copies turns := by
  unfold repeats at hrepeats
  rw [Bool.and_eq_true] at hrepeats
  simpa using hrepeats.1

include hlt hrepeats

/-- Each whole copy is the cycle over again. -/
theorem block_eq_body (hn : n ≤ c.copies turns) :
    block turns (c.start + n * c.period) c.period = c.body turns := by
  cases n with
  | zero => rw [Nat.zero_mul, Nat.add_zero, body]
  | succ n =>
    unfold repeats at hrepeats
    simp only [Bool.and_eq_true, List.all_eq_true, List.mem_range, beq_iff_eq] at hrepeats
    have hcopy := hrepeats.2 n hn
    have hfirst : c.start + (n + 1) * c.period = c.stop + n * c.period := by
      rw [← start_add_period hlt]
      ring
    rw [hfirst]
    exact hcopy

/-- **Every whole copy shows what the cycle shows**, turn by turn. -/
theorem getElem?_eq_body (hn : n ≤ c.copies turns) (hj : j < c.period) :
    turns[c.start + n * c.period + j]? = (c.body turns)[j]? := by
  rw [← block_eq_body hlt hrepeats hn, getElem?_block, if_pos hj]

/-- **Up to the end of the last whole copy the turns are periodic.** -/
theorem getElem?_add_period (hk : c.start ≤ k) (hend : k + c.period < c.copiesEnd turns) :
    turns[k]? = turns[k + c.period]? := by
  have hperiod : 0 < c.period := Nat.sub_pos_of_lt hlt
  -- turn `k` is turn `j` of copy number `n`
  obtain ⟨n, j, hj, rfl⟩ : ∃ n j, j < c.period ∧ k = c.start + n * c.period + j := by
    refine ⟨(k - c.start) / c.period, (k - c.start) % c.period, Nat.mod_lt _ hperiod, ?_⟩
    have hsplit := Nat.div_add_mod (k - c.start) c.period
    rw [Nat.mul_comm] at hsplit
    omega
  have hnext : c.start + n * c.period + j + c.period = c.start + (n + 1) * c.period + j := by
    ring
  have hn : n + 1 ≤ c.copies turns := by
    rw [hnext, copiesEnd_eq hlt] at hend
    have hless : (n + 1) * c.period < (c.copies turns + 1) * c.period := by omega
    exact Nat.lt_succ_iff.mp (Nat.lt_of_mul_lt_mul_right hless)
  rw [hnext, getElem?_eq_body hlt hrepeats hn hj,
    getElem?_eq_body hlt hrepeats (Nat.le_of_succ_le hn) hj]

/-- One period before a turn left over, the last whole copy shows a turn of the cycle. -/
theorem getElem?_before_leftover (hj : j < c.period) (hk : k + c.period = c.copiesEnd turns + j) :
    turns[k]? = (c.body turns)[j]? := by
  have hlast : k = c.start + c.copies turns * c.period + j := by
    have hend := copiesEnd_eq hlt turns
    rw [Nat.add_mul, Nat.one_mul] at hend
    omega
  rw [hlast]
  exact getElem?_eq_body hlt hrepeats (Nat.le_refl _) hj

/-- **A cycle repeats to the end exactly if the turns left over begin one more copy.** -/
theorem periodicFrom_iff_leftover :
    PeriodicFrom c.start c.period turns ↔ c.leftover turns <+: c.body turns := by
  have hshort : turns.length < c.copiesEnd turns + c.period := length_lt_copiesEnd hlt
  have hpos : 0 < c.copies turns := copies_pos hrepeats
  have hroom : c.start + c.period ≤ c.copiesEnd turns := by
    have hend := copiesEnd_eq hlt turns
    rw [Nat.add_mul, Nat.one_mul] at hend
    omega
  rw [List.prefix_iff_getElem?]
  constructor
  · intro hperiodic j hj
    have hturn : c.copiesEnd turns + j < turns.length := by
      unfold leftover at hj
      rw [List.length_drop] at hj
      omega
    -- one period before the turn left over, the last whole copy has its turn `j`
    obtain ⟨k, hk⟩ : ∃ k, k + c.period = c.copiesEnd turns + j :=
      ⟨c.copiesEnd turns + j - c.period, by omega⟩
    have hsame := hperiodic k (by omega) (by omega)
    rw [getElem?_before_leftover hlt hrepeats (by omega) hk, hk] at hsame
    rw [hsame, ← List.getElem?_eq_getElem hj]
    unfold leftover
    rw [List.getElem?_drop]
  · intro hbegins k hk hturn
    by_cases hend : k + c.period < c.copiesEnd turns
    · exact getElem?_add_period hlt hrepeats hk hend
    · obtain ⟨j, hj⟩ := Nat.exists_eq_add_of_le (Nat.le_of_not_lt hend)
      have hleft : j < (c.leftover turns).length := by
        unfold leftover
        rw [List.length_drop]
        omega
      rw [getElem?_before_leftover hlt hrepeats (by omega) hj, hbegins j hleft,
        ← List.getElem?_eq_getElem hleft, hj]
      unfold leftover
      rw [List.getElem?_drop]

end Repeats

end Cycle

/-! ## The cycle of an enemy -/

namespace Program

/-- **A cycle that is found repeats in whole copies.** At least one copy fits behind it, and from
its start on the turns are periodic as far as whole copies go. Fewer turns are left over than a copy
takes, and the cycle repeats to the end of the sweep exactly if those begin one more copy. -/
theorem cycle_repeats_in_whole_copies (p : Program) (level : UInt32) :
    ∃ m, p.simulate level = .ok m ∧ m.turnMaps.length = sweepTurnCount ∧
      ∀ c, m.cycle? = some c →
        c.start < c.stop ∧ c.stop + c.period ≤ c.copiesEnd m.turnMaps ∧
          c.copiesEnd m.turnMaps ≤ sweepTurnCount ∧
          (∀ k, c.start ≤ k → k + c.period < c.copiesEnd m.turnMaps →
            m.turnMaps[k]? = m.turnMaps[k + c.period]?) ∧
          (c.leftover m.turnMaps).length < c.period ∧
          (PeriodicFrom c.start c.period m.turnMaps ↔
            c.leftover m.turnMaps <+: c.body m.turnMaps) := by
  obtain ⟨m, hm⟩ := p.exists_simulate level
  have hlength := (simulate_eq_ok_iff.mp hm).length_turnMaps
  refine ⟨m, hm, hlength, fun c hc => ?_⟩
  obtain ⟨hmem, hrepeats⟩ := Cycle.repeats_of_find? hc
  obtain ⟨hlt, hstop⟩ := Cycle.mem_candidates.mp hmem
  have hend : c.copiesEnd m.turnMaps ≤ m.turnMaps.length := Cycle.copiesEnd_le (by omega)
  have hshort : m.turnMaps.length < c.copiesEnd m.turnMaps + c.period :=
    Cycle.length_lt_copiesEnd hlt
  have hcopy : 1 * c.period ≤ c.copies m.turnMaps * c.period :=
    Nat.mul_le_mul_right _ (Cycle.copies_pos hrepeats)
  refine ⟨hlt, ?_, ?_, ?_, ?_, Cycle.periodicFrom_iff_leftover hlt hrepeats⟩
  · unfold Cycle.copiesEnd
    omega
  · omega
  · intro k hk hkend
    exact Cycle.getElem?_add_period hlt hrepeats hk hkend
  · unfold Cycle.leftover
    rw [List.length_drop]
    omega

/-- The enemy dispels, but deals gravity on its fourth turn and on all turns from the eighth on. -/
def gravityFromEighthTurn : Program where
  nodes := #[
    .setCounter .add 1,
    .branchCounter .equal 4 5,
    .branchCounter .greaterOrEqual 8 5,
    .action (.mk 1 (.effect .dispel) none),
    .action (.mk 2 (.effect (.gravity 25)) none)]
  staysWithin := by decide

/-- **A cycle that breaks off.** The first four turns are found to be a cycle, since the next four
are like them. But on the ninth turn the enemy does not do what it did on the fifth. -/
theorem cycle_breaks_off :
    ∃ m, gravityFromEighthTurn.simulate 1 = .ok m ∧ m.cycle? = some ⟨0, 4⟩ ∧
      m.turnMaps.length = 10 ∧ m.turnMaps[4]? ≠ m.turnMaps[8]? := by
  have hruns : (gravityFromEighthTurn.simulate 1).toOption.any (fun m =>
      m.cycle? = some ⟨0, 4⟩ ∧ m.turnMaps.length = 10 ∧
        m.turnMaps[4]? ≠ m.turnMaps[8]?) = true := by
    decide +kernel
  obtain ⟨m, hm⟩ := gravityFromEighthTurn.exists_simulate 1
  rw [hm] at hruns
  exact ⟨m, hm, of_decide_eq_true hruns⟩

end Program

end EnemyBehavior
