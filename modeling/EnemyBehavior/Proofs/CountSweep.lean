import EnemyBehavior.Proofs.Run
import EnemyBehavior.Sweep.EnemyCounts

/-!
# The walks of the enemy-count sweep

Each count is tried on its own copy of one state; only the second walk of a count goes on with what
the first has left.

## Main statements

* `Program.mem_enemyCounts` — the counts that are tried
* `Program.countRecords_cons` — one count of the sweep
* `Program.sweepEnemyCounts_probe` — each walk is the walk of its start
* `Program.sweepEnemyCounts_holds` — what walks keep holds throughout the sweep
-/

namespace EnemyBehavior

namespace Program

variable {p : Program} {s : BattleState} {n : UInt32} {counts : List UInt32}
  {seen : List (List Action)}

theorem enemyCounts_descending : enemyCounts.Pairwise fun a b => b < a := by decide

theorem mem_enemyCounts : n ∈ enemyCounts ↔ 1 ≤ n ∧ n ≤ 6 := by
  have hcounts : enemyCounts = [6, 5, 4, 3, 2, 1] := rfl
  rw [hcounts, UInt32.le_iff_toNat_le, UInt32.le_iff_toNat_le]
  simp only [List.mem_cons, List.not_mem_nil, or_false, ← UInt32.toNat_inj, UInt32.reduceToNat]
  omega

theorem countRecords_cons (p : Program) (s : BattleState) (count : UInt32) (counts : List UInt32)
    (seen : List (List Action)) :
    p.countRecords s (count :: counts) seen =
      if (p.probe { s with enemies := count }).actions ∈ seen then
        ⟨count, p.probe { s with enemies := count }, none⟩ :: p.countRecords s counts seen
      else
        ⟨count, p.probe { s with enemies := count },
            some (p.probe (p.probe { s with enemies := count }).final)⟩ ::
          p.countRecords s counts
            ((p.probe (p.probe { s with enemies := count }).final).actions ::
              (p.probe { s with enemies := count }).actions :: seen) := rfl

theorem countRecords_probe {r : CountRecord} (h : r ∈ p.countRecords s counts seen) :
    ∀ q ∈ r.probes, q = p.probe q.start := by
  induction counts generalizing seen with
  | nil => cases h
  | cons count counts ih =>
    rw [countRecords_cons] at h
    split at h
    · rcases List.mem_cons.mp h with rfl | h
      · simp [CountRecord.probes, probe]
      · exact ih h
    · rcases List.mem_cons.mp h with rfl | h
      · simp [CountRecord.probes, probe]
      · exact ih h

/-- Each walk of the sweep is the walk of its start. -/
theorem sweepEnemyCounts_probe {q : Probe} (h : q ∈ (p.sweepEnemyCounts s).probes) :
    q = p.probe q.start := by
  rcases List.mem_cons.mp h with rfl | h
  · rfl
  · obtain ⟨r, hr, hq⟩ := List.mem_flatMap.mp h
    exact countRecords_probe hr q hq

variable {Holds : BattleState → Prop}

theorem countRecords_holds (hwalk : ∀ t, Holds t → Holds (p.trace t).final)
    (hcount : ∀ n ∈ counts, Holds { s with enemies := n }) {r : CountRecord}
    (h : r ∈ p.countRecords s counts seen) : ∀ q ∈ r.probes, Holds q.start := by
  induction counts generalizing seen with
  | nil => cases h
  | cons count counts ih =>
    obtain ⟨hfirst, hrest⟩ := List.forall_mem_cons.mp hcount
    have hsecond : Holds (p.probe { s with enemies := count }).final := hwalk _ hfirst
    rw [countRecords_cons] at h
    split at h
    · rcases List.mem_cons.mp h with rfl | h
      · exact List.forall_mem_cons.mpr ⟨hfirst, List.forall_mem_nil _⟩
      · exact ih hrest h
    · rcases List.mem_cons.mp h with rfl | h
      · exact List.forall_mem_cons.mpr
          ⟨hfirst, List.forall_mem_cons.mpr ⟨hsecond, List.forall_mem_nil _⟩⟩
      · exact ih hrest h

/-- **What walks keep holds at the start of every walk**, if it holds with each number of enemies
that is tried. -/
theorem sweepEnemyCounts_holds (hwalk : ∀ t, Holds t → Holds (p.trace t).final) (hs : Holds s)
    (hcount : ∀ n ∈ enemyCounts, Holds { s with enemies := n }) :
    ∀ q ∈ (p.sweepEnemyCounts s).probes, Holds q.start := by
  intro q hq
  rcases List.mem_cons.mp hq with rfl | hq
  · exact hs
  · obtain ⟨r, hr, hq⟩ := List.mem_flatMap.mp hq
    exact countRecords_holds hwalk hcount hr q hq

end Program

end EnemyBehavior
