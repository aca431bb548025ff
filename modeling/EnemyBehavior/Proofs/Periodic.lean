import EnemyBehavior.Ascending
import EnemyBehavior.Cycle
import Mathlib.Tactic.Ring

/-!
# The search for a cycle is complete

The ranges of turns are tried by start and then by end, so the cycle found is the least of those
that repeat. Turns that are periodic from some turn on, with room for one more period, have such a
range right there. So the cycle found starts there at the latest.

## Main statements

* `Cycle.mem_candidates`, `Cycle.candidates_pairwise` — the ranges that are tried, and their order
* `Cycle.repeats_of_periodicFrom` — a period of periodic turns repeats
* `Cycle.exists_find?_of_periodicFrom` — periodic turns have a cycle
-/

namespace EnemyBehavior

variable {turns : List TurnMap} {i period k n : Nat}

/-- From turn `i` on, each turn is like the one `period` turns later, as far as there is one. -/
def PeriodicFrom (i period : Nat) (turns : List TurnMap) : Prop :=
  ∀ k, i ≤ k → k + period < turns.length → turns[k]? = turns[k + period]?

/-- Then it is also like those several periods later. -/
theorem PeriodicFrom.iterate (h : PeriodicFrom i period turns) (hk : i ≤ k) (n : Nat)
    (hlt : k + n * period < turns.length) : turns[k]? = turns[k + n * period]? := by
  induction n with
  | zero => simp
  | succ n ih =>
    have hnext : k + (n + 1) * period = k + n * period + period := by ring
    rw [hnext] at hlt ⊢
    rw [ih (by omega)]
    exact h _ (by omega) hlt

namespace Cycle

variable {c : Cycle}

/-! ## The ranges that are tried -/

theorem mem_candidates :
    c ∈ candidates turns ↔ c.start < c.stop ∧ c.stop < turns.length := by
  unfold candidates
  simp only [List.mem_flatMap, List.mem_range, List.mem_map, List.mem_range'_1]
  constructor
  · rintro ⟨start, hstart, stop, hstop, rfl⟩
    show start < stop ∧ stop < turns.length
    omega
  · rintro ⟨hlt, hstop⟩
    exact ⟨c.start, by omega, c.stop, by omega, rfl⟩

theorem start_add_period (hlt : c.start < c.stop) : c.start + c.period = c.stop := by
  unfold period
  omega

/-- The ranges are tried by start and then by end. -/
theorem candidates_pairwise (turns : List TurnMap) :
    (candidates turns).Pairwise fun a b =>
      a.start < b.start ∨ a.start = b.start ∧ a.stop < b.stop := by
  unfold candidates
  rw [List.pairwise_flatMap]
  constructor
  · intro start _
    rw [List.pairwise_map]
    exact (List.pairwise_lt_range' 1).imp fun hlt => .inr ⟨rfl, hlt⟩
  · refine List.pairwise_lt_range.imp fun {start start'} hlt a ha b hb => ?_
    obtain ⟨_, -, rfl⟩ := List.mem_map.mp ha
    obtain ⟨_, -, rfl⟩ := List.mem_map.mp hb
    exact .inl hlt

/-- **The cycle found is the least range that repeats.** -/
theorem exists_find?_of_repeats (hmem : c ∈ candidates turns)
    (hends : turns[c.start]? = turns[c.stop]?) (hrepeats : c.repeats turns = true) :
    ∃ d, find? turns = some d ∧ d ∈ candidates turns ∧
      (d.start < c.start ∨ d.start = c.start ∧ d.stop ≤ c.stop) := by
  have hc : (turns[c.start]? == turns[c.stop]? && c.repeats turns) = true := by
    simp [hends, hrepeats]
  have hsome : (find? turns).isSome = true := List.find?_isSome.mpr ⟨c, hmem, hc⟩
  obtain ⟨d, hd⟩ := Option.isSome_iff_exists.mp hsome
  refine ⟨d, hd, List.mem_of_find?_eq_some hd, ?_⟩
  rcases eq_or_rel_of_find? (candidates_pairwise turns) hd hmem hc with rfl | hless
  · exact .inr ⟨rfl, Nat.le_refl _⟩
  · omega

/-! ## Periodic turns -/

theorem getElem?_block (turns : List TurnMap) (first count n : Nat) :
    (block turns first count)[n]? = if n < count then turns[first + n]? else none := by
  unfold block
  rw [List.getElem?_take, List.getElem?_drop]

theorem getElem?_body (c : Cycle) (turns : List TurnMap) (n : Nat) :
    (c.body turns)[n]? = if n < c.period then turns[c.start + n]? else none :=
  getElem?_block turns c.start c.period n

/-- Blocks of periodic turns that lie several periods apart are equal. -/
theorem block_eq_of_periodicFrom (h : PeriodicFrom i period turns)
    (hfit : i + n * period + period ≤ turns.length) :
    block turns (i + n * period) period = block turns i period := by
  refine List.ext_getElem? fun k => ?_
  rw [getElem?_block, getElem?_block]
  by_cases hk : k < period
  · rw [if_pos hk, if_pos hk]
    have hshift : i + n * period + k = i + k + n * period := by omega
    rw [hshift]
    exact (h.iterate (by omega) n (by omega)).symm
  · rw [if_neg hk, if_neg hk]

/-- **A period of periodic turns repeats**, if one more period fits behind it. -/
theorem repeats_of_periodicFrom (h : PeriodicFrom i period turns) (hperiod : 1 ≤ period)
    (hfit : i + 2 * period ≤ turns.length) :
    (Cycle.mk i (i + period)).repeats turns = true := by
  have hlength : (Cycle.mk i (i + period)).period = period := by
    show i + period - i = period
    omega
  unfold repeats copies body
  simp only [hlength, Bool.and_eq_true, decide_eq_true_eq, List.all_eq_true, List.mem_range,
    beq_iff_eq]
  constructor
  · exact Nat.div_pos (by omega) (by omega)
  · intro n hn
    have hcopies : (n + 1) * period ≤ turns.length - (i + period) := by
      have hle := Nat.mul_le_mul_right period hn
      exact hle.trans (Nat.div_mul_le_self _ _)
    have hnext : i + period + n * period = i + (n + 1) * period := by ring
    rw [hnext]
    exact block_eq_of_periodicFrom h (by omega)

/-- **Periodic turns have a cycle**, and it starts no later than they become periodic. -/
theorem exists_find?_of_periodicFrom (h : PeriodicFrom i period turns) (hperiod : 1 ≤ period)
    (hfit : i + 2 * period ≤ turns.length) :
    ∃ c, find? turns = some c ∧ c ∈ candidates turns ∧
      (c.start < i ∨ c.start = i ∧ c.stop ≤ i + period) := by
  have hmem : Cycle.mk i (i + period) ∈ candidates turns := by
    rw [mem_candidates]
    show i < i + period ∧ i + period < turns.length
    omega
  exact exists_find?_of_repeats hmem (h i (Nat.le_refl i) (by omega))
    (repeats_of_periodicFrom h hperiod hfit)

end Cycle

end EnemyBehavior
