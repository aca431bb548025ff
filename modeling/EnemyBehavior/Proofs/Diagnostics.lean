import EnemyBehavior.Batch
import Mathlib.Data.List.Induction

/-!
# The diagnostics of a batch

The units of a batch are taken up one after another. For each of the four findings there is a tally
of its own, which takes up the numbers of the enemies that have the finding and nothing else. An
enemy that is simulated at several levels comes up several times. It is counted each time, but
named once, and only as long as fewer than `maxExamples` enemies have been named.

## Main statements

* `Tally.IsOf.concat` — a tally after one more unit
* `Diagnostics.Counts.isOf_ofUnits` — the tally of a finding after any number of units
* `Diagnostics.diagnostics_of_units` — all that is told of the units of a batch
-/

namespace EnemyBehavior

variable {t : Tally} {found : Findings → Bool} {units : List (UInt32 × Findings)}
  {tally : Diagnostics → Tally}

/-! ## One tally -/

/-- The enemies whose units have the finding, in order, as often as they have such a unit. -/
def affectedIds (found : Findings → Bool) (units : List (UInt32 × Findings)) : List UInt32 :=
  (units.filter fun u => found u.2).map Prod.fst

theorem affectedIds_concat (found : Findings → Bool) (units : List (UInt32 × Findings))
    (enemyId : UInt32) (f : Findings) :
    affectedIds found (units ++ [(enemyId, f)]) =
      if found f = true then affectedIds found units ++ [enemyId] else affectedIds found units := by
  unfold affectedIds
  by_cases hfound : found f = true
  · simp [hfound]
  · simp [hfound]

/-- The tally says how many units have the finding, and names the first five different enemies among
them, in order. -/
structure Tally.IsOf (t : Tally) (found : Findings → Bool) (units : List (UInt32 × Findings)) :
    Prop where
  units_eq : t.units = units.countP fun u => found u.2
  examples_eq : t.examples = (affectedIds found units).eraseDups.take 5

/-- One more enemy is named if it is a different one and there is room. -/
theorem take_eraseDups_concat (ids : List UInt32) (enemyId : UInt32) (room : Nat) :
    (ids ++ [enemyId]).eraseDups.take room =
      if (ids.eraseDups.take room).length < room ∧ enemyId ∉ ids.eraseDups.take room
      then ids.eraseDups.take room ++ [enemyId] else ids.eraseDups.take room := by
  rw [List.eraseDups_append]
  by_cases hroom : ids.eraseDups.length < room
  · have hall : ids.eraseDups.take room = ids.eraseDups :=
      List.take_of_length_le (Nat.le_of_lt hroom)
    rw [hall]
    by_cases hmem : enemyId ∈ ids
    · have hnew : [enemyId].removeAll ids = [] := by simp [List.removeAll, hmem]
      have hnamed : enemyId ∈ ids.eraseDups := List.mem_eraseDups.mpr hmem
      rw [hnew, List.eraseDups_nil, List.append_nil, hall, if_neg fun h => h.2 hnamed]
    · have hnew : ([enemyId].removeAll ids).eraseDups = [enemyId] := by
        simp [List.removeAll, hmem, List.eraseDups_cons]
      have hnamed : enemyId ∉ ids.eraseDups := fun h => hmem (List.mem_eraseDups.mp h)
      rw [hnew, if_pos ⟨hroom, hnamed⟩]
      refine List.take_of_length_le ?_
      rw [List.length_append]
      exact hroom
  · -- all places are taken, whoever comes next
    have hfull : room ≤ ids.eraseDups.length := Nat.le_of_not_lt hroom
    have hlength := List.length_take_of_le hfull
    rw [List.take_append_of_le_length hfull, if_neg fun h => by omega]

namespace Tally

theorem isOf_empty (found : Findings → Bool) : empty.IsOf found [] := ⟨rfl, rfl⟩

/-- **A tally after one more unit** is that of all units so far. -/
theorem IsOf.concat (h : t.IsOf found units) (enemyId : UInt32) (f : Findings) :
    (t.noteIf (found f) enemyId).IsOf found (units ++ [(enemyId, f)]) := by
  have hcount : units.countP (fun u => found u.2) + (if found f = true then 1 else 0)
      = (units ++ [(enemyId, f)]).countP fun u => found u.2 := by
    rw [List.countP_append, List.countP_singleton]
  by_cases hfound : found f = true
  · rw [if_pos hfound] at hcount
    rw [noteIf, if_pos hfound]
    constructor
    case units_eq => rw [note, h.units_eq, hcount]
    case examples_eq =>
      rw [affectedIds_concat, if_pos hfound, take_eraseDups_concat, ← h.examples_eq]
      rfl
  · rw [if_neg hfound] at hcount
    rw [noteIf, if_neg hfound]
    constructor
    case units_eq => rw [h.units_eq, ← hcount, Nat.add_zero]
    case examples_eq => rw [affectedIds_concat, if_neg hfound, h.examples_eq]

/-- A tally is empty if no unit has the finding. -/
theorem IsOf.units_eq_zero_iff (h : t.IsOf found units) :
    t.units = 0 ↔ ∀ u ∈ units, ¬found u.2 = true := by
  rw [h.units_eq, List.countP_eq_zero]

end Tally

/-! ## Four tallies -/

theorem Findings.isClean_iff {f : Findings} :
    f.isClean = true ↔ f.unknownTypes = [] ∧ f.stepCapHits = 0 ∧ f.faults = 0 ∧
      f.unsimulatedCards = [] := by
  simp [isClean, and_assoc]

namespace Diagnostics

/-- A tally takes up the units that have a finding. -/
structure Counts (tally : Diagnostics → Tally) (found : Findings → Bool) : Prop where
  empty : tally .empty = .empty
  record : ∀ d enemyId f, tally (d.record enemyId f) = (tally d).noteIf (found f) enemyId

theorem ofUnits_concat (units : List (UInt32 × Findings)) (enemyId : UInt32) (f : Findings) :
    ofUnits (units ++ [(enemyId, f)]) = (ofUnits units).record enemyId f := by
  rw [ofUnits, List.foldl_append]
  rfl

namespace Counts

/-- **The tally of a finding after any number of units.** -/
theorem isOf_ofUnits (h : Counts tally found) (units : List (UInt32 × Findings)) :
    (tally (ofUnits units)).IsOf found units := by
  induction units using List.reverseRecOn with
  | nil =>
    show (tally .empty).IsOf found []
    rw [h.empty]
    exact Tally.isOf_empty found
  | append_singleton units u ih =>
    rw [ofUnits_concat, h.record]
    exact ih.concat u.1 u.2

theorem units_append (h : Counts tally found) (units units' : List (UInt32 × Findings)) :
    (tally (ofUnits (units ++ units'))).units
      = (tally (ofUnits units)).units + (tally (ofUnits units')).units := by
  rw [(h.isOf_ofUnits _).units_eq, (h.isOf_ofUnits _).units_eq, (h.isOf_ofUnits _).units_eq,
    List.countP_append]

end Counts

theorem decide_ne_nil (xs : List UInt32) : decide (xs ≠ []) = !xs.isEmpty := by
  cases xs <;> rfl

theorem counts_unknownTypes : Counts unknownTypes (fun f => f.unknownTypes ≠ []) where
  empty := rfl
  record d enemyId f := by
    rw [decide_ne_nil]
    rfl

theorem counts_stepCap : Counts stepCap (fun f => 0 < f.stepCapHits) := ⟨rfl, fun _ _ _ => rfl⟩

theorem counts_faults : Counts faults (fun f => 0 < f.faults) := ⟨rfl, fun _ _ _ => rfl⟩

theorem counts_cardBranches : Counts cardBranches (fun f => f.unsimulatedCards ≠ []) where
  empty := rfl
  record d enemyId f := by
    rw [decide_ne_nil]
    rfl

theorem isClean_iff {d : Diagnostics} :
    d.isClean = true ↔ d.unknownTypes.units = 0 ∧ d.stepCap.units = 0 ∧ d.faults.units = 0 ∧
      d.cardBranches.units = 0 := by
  simp [isClean, and_assoc]

/-- **The diagnostics tell of all units.** For each of the four findings, the diagnostics say how
many units have it, and name the first five different enemies among them. They are clean exactly if
the findings of every unit are. -/
theorem diagnostics_of_units (units : List (UInt32 × Findings)) :
    (ofUnits units).unknownTypes.IsOf (fun f => f.unknownTypes ≠ []) units ∧
      (ofUnits units).stepCap.IsOf (fun f => 0 < f.stepCapHits) units ∧
      (ofUnits units).faults.IsOf (fun f => 0 < f.faults) units ∧
      (ofUnits units).cardBranches.IsOf (fun f => f.unsimulatedCards ≠ []) units ∧
      ((ofUnits units).isClean = true ↔ ∀ u ∈ units, u.2.isClean = true) := by
  have hunknown := counts_unknownTypes.isOf_ofUnits units
  have hstepCap := counts_stepCap.isOf_ofUnits units
  have hfaults := counts_faults.isOf_ofUnits units
  have hcards := counts_cardBranches.isOf_ofUnits units
  refine ⟨hunknown, hstepCap, hfaults, hcards, ?_⟩
  rw [isClean_iff, hunknown.units_eq_zero_iff, hstepCap.units_eq_zero_iff,
    hfaults.units_eq_zero_iff, hcards.units_eq_zero_iff]
  simp [Findings.isClean_iff, imp_and, forall_and]

end Diagnostics

end EnemyBehavior
