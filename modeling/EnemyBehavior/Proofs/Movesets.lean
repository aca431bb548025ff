import EnemyBehavior.Skillset.Clean
import Mathlib.Data.List.Forall2
import Mathlib.Data.List.Induction

/-!
# The moveset in force

HP groups are read from the top: the moveset in force at a group is the standing moveset of the
nearest group, from there up, that has any. So a group that repeats the moveset in force above it
can leave it out, and nothing is lost.

`dropRepeatedMovesets` does this in one pass. It carries the moveset in force along, and rewrites
each group by `HpGroup.compress`; all results are derived from what this does to one group.

## Main statements

* `dropRepeatedMovesets_cons` — the pass, group by group
* `runningMoveset_dropRepeatedMovesets` — the moveset in force stays the same at every group
* `forall₂_dropRepeatedMovesets` — all other actions stay in their groups, in order
* `noRepeatedMoveset_dropRepeatedMovesets` — afterwards no group repeats the moveset above it
* `dropRepeatedMovesets_eq_self` — and then a second pass changes nothing
-/

namespace EnemyBehavior

variable {a : Action} {g : HpGroup} {gs above : List HpGroup} {current : List Action}

/-! ## One group -/

namespace HpGroup

/-- The moveset in force from the group on, if `current` is in force above it. -/
def inForce (current : List Action) (g : HpGroup) : List Action :=
  if g.moveset = [] then current else g.moveset

/-- The group without its standing moveset if that is `current`. -/
def compress (current : List Action) (g : HpGroup) : HpGroup :=
  if g.moveset = current then { g with actions := g.actions.filter (· ∉ current) } else g

theorem isStanding_of_mem_moveset (h : a ∈ g.moveset) : a.isStanding = true :=
  (List.mem_filter.mp h).2

@[simp] theorem ceiling_compress (current : List Action) (g : HpGroup) :
    (g.compress current).ceiling = g.ceiling := by
  unfold compress
  split <;> rfl

/-- Only standing actions are left out. -/
theorem filter_compress {f : Action → Bool} (hf : ∀ a, a.isStanding = true → f a = false)
    (current : List Action) (g : HpGroup) :
    (g.compress current).actions.filter f = g.actions.filter f := by
  unfold compress
  split
  · next heq =>
    rw [List.filter_filter]
    refine List.filter_congr fun a _ => ?_
    by_cases hmem : a ∈ current
    · simp [hf a (isStanding_of_mem_moveset (heq ▸ hmem))]
    · simp [hmem]
  · rfl

theorem mem_of_mem_compress (h : a ∈ (g.compress current).actions) : a ∈ g.actions := by
  unfold compress at h
  split at h
  · exact (List.mem_filter.mp h).1
  · exact h

/-- What is left out is in force above. -/
theorem mem_compress_or (h : a ∈ g.actions) : a ∈ (g.compress current).actions ∨ a ∈ current := by
  unfold compress
  split
  · by_cases hmem : a ∈ current
    · exact .inr hmem
    · exact .inl (List.mem_filter.mpr ⟨h, by simpa using hmem⟩)
  · exact .inl h

/-- The moveset in force from a group on stands in it, unless it is in force above already. -/
theorem mem_compress_or_of_mem_inForce (h : a ∈ g.inForce current) :
    a ∈ (g.compress current).actions ∨ a ∈ current := by
  unfold inForce at h
  split at h
  · exact .inr h
  · exact mem_compress_or (List.mem_filter.mp h).1

/-- A moveset is left out as a whole or not at all. -/
theorem moveset_compress (current : List Action) (g : HpGroup) :
    (g.compress current).moveset = if g.moveset = current then [] else g.moveset := by
  unfold compress
  split
  · next heq =>
    refine List.filter_eq_nil_iff.mpr fun a ha hstanding => ?_
    obtain ⟨hmem, hnot⟩ := List.mem_filter.mp ha
    have hmoveset : a ∈ g.moveset := List.mem_filter.mpr ⟨hmem, hstanding⟩
    rw [heq] at hmoveset
    simp [hmoveset] at hnot
  · rfl

theorem moveset_compress_ne (h : (g.compress current).moveset ≠ []) :
    (g.compress current).moveset ≠ current := by
  rw [moveset_compress] at h ⊢
  split
  · next heq => exact absurd (if_pos heq) h
  · next hne => exact hne

/-- The moveset in force from the group on is not affected. -/
theorem inForce_compress (current : List Action) (g : HpGroup) :
    (g.compress current).inForce current = g.inForce current := by
  unfold inForce
  rw [moveset_compress]
  by_cases heq : g.moveset = current
  · simp [heq]
  · rw [if_neg heq]

theorem compress_eq_self (h : g.moveset ≠ [] → g.moveset ≠ current) : g.compress current = g := by
  unfold compress
  split
  · next heq =>
    have hnil : g.moveset = [] := by
      by_contra hne
      exact h hne heq
    simp [← heq, hnil]
  · rfl

end HpGroup

/-- **The pass over movesets, group by group.** -/
theorem dropRepeatedMovesets_cons (current : List Action) (g : HpGroup) (gs : List HpGroup) :
    dropRepeatedMovesets current (g :: gs)
      = g.compress current :: dropRepeatedMovesets (g.inForce current) gs := by
  rw [dropRepeatedMovesets]
  unfold HpGroup.compress HpGroup.inForce
  by_cases heq : g.moveset = current
  · rw [if_pos heq, if_pos heq]
    -- a moveset that repeats the one in force leaves it in force, whether or not it is empty
    split
    · rfl
    · rw [heq]
  · rw [if_neg heq, if_neg heq]
    split <;> rfl

/-! ## The moveset in force after some groups -/

/-- The standing moveset of the nearest group, from the last one up, that has any. -/
def runningMoveset (gs : List HpGroup) : List Action :=
  ((gs.map HpGroup.moveset).reverse.find? (!·.isEmpty)).getD []

theorem runningMoveset_concat (gs : List HpGroup) (g : HpGroup) :
    runningMoveset (gs ++ [g]) = g.inForce (runningMoveset gs) := by
  unfold runningMoveset HpGroup.inForce
  rw [List.map_append, List.map_singleton, List.reverse_append, List.reverse_singleton,
    List.singleton_append, List.find?_cons]
  cases hmoveset : g.moveset with
  | nil => rfl
  | cons a as => rfl

/-- Groups without actions can be dropped. -/
theorem runningMoveset_filter_nonempty (gs : List HpGroup) :
    runningMoveset (gs.filter (!·.actions.isEmpty)) = runningMoveset gs := by
  induction gs using List.reverseRecOn with
  | nil => rfl
  | append_singleton gs g ih =>
    rw [List.filter_append, List.filter_singleton, runningMoveset_concat]
    cases hempty : g.actions.isEmpty with
    | false =>
      rw [Bool.not_false, cond_true, runningMoveset_concat, ih]
    | true =>
      have hmoveset : g.moveset = [] := by
        rw [HpGroup.moveset, List.isEmpty_iff.mp hempty, List.filter_nil]
      rw [Bool.not_true, cond_false, List.append_nil, ih, HpGroup.inForce, if_pos hmoveset]

/-- **The moveset in force stays the same at every group.** The groups `above` have been passed
already and are `above'` now. -/
theorem runningMoveset_append_dropRepeatedMovesets {above' : List HpGroup}
    (h : runningMoveset above' = runningMoveset above) (gs : List HpGroup) (n : Nat) :
    runningMoveset (above' ++ (dropRepeatedMovesets (runningMoveset above) gs).take n)
      = runningMoveset (above ++ gs.take n) := by
  induction gs generalizing above above' n with
  | nil => simp [dropRepeatedMovesets, h]
  | cons g gs ih =>
    cases n with
    | zero => simp [h]
    | succ n =>
      have hnext : runningMoveset (above' ++ [g.compress (runningMoveset above)])
          = runningMoveset (above ++ [g]) := by
        rw [runningMoveset_concat, runningMoveset_concat, h, HpGroup.inForce_compress]
      rw [dropRepeatedMovesets_cons, List.take_succ_cons, List.take_succ_cons, List.append_cons,
        List.append_cons above, ← runningMoveset_concat]
      exact ih hnext n

theorem runningMoveset_dropRepeatedMovesets (gs : List HpGroup) (n : Nat) :
    runningMoveset ((dropRepeatedMovesets [] gs).take n) = runningMoveset (gs.take n) := by
  have hnone : runningMoveset [] = runningMoveset [] := rfl
  exact runningMoveset_append_dropRepeatedMovesets hnone gs n

/-! ## Nothing else changes -/

/-- **All but standing actions stay in their groups, in order.** -/
theorem forall₂_dropRepeatedMovesets {f : Action → Bool}
    (hf : ∀ a, a.isStanding = true → f a = false) (current : List Action) (gs : List HpGroup) :
    List.Forall₂ (fun g g' => g'.ceiling = g.ceiling ∧ g'.actions.filter f = g.actions.filter f)
      gs (dropRepeatedMovesets current gs) := by
  induction gs generalizing current with
  | nil => exact .nil
  | cons g gs ih =>
    rw [dropRepeatedMovesets_cons]
    exact .cons ⟨g.ceiling_compress current, HpGroup.filter_compress hf current g⟩ (ih _)

theorem map_ceiling_dropRepeatedMovesets (current : List Action) (gs : List HpGroup) :
    (dropRepeatedMovesets current gs).map HpGroup.ceiling = gs.map HpGroup.ceiling := by
  induction gs generalizing current with
  | nil => rfl
  | cons g gs ih => simp [dropRepeatedMovesets_cons, ih]

/-- The order of groups stays. -/
theorem pairwise_dropRepeatedMovesets (current : List Action)
    (h : gs.Pairwise (·.ceiling ≥ ·.ceiling)) :
    (dropRepeatedMovesets current gs).Pairwise (·.ceiling ≥ ·.ceiling) := by
  have hceilings : (gs.map HpGroup.ceiling).Pairwise (· ≥ ·) := List.pairwise_map.mpr h
  rw [← map_ceiling_dropRepeatedMovesets current gs] at hceilings
  exact List.pairwise_map.mp hceilings

/-! ## Nothing is left to drop -/

/-- No group has a standing moveset that is in force above it already. -/
def NoRepeatedMoveset (gs : List HpGroup) : Prop :=
  ∀ above g, above ++ [g] <+: gs → g.moveset ≠ [] → g.moveset ≠ runningMoveset above

theorem noRepeatedMoveset_nil : NoRepeatedMoveset [] := by
  intro above g habove
  have hnil := List.prefix_nil.mp habove
  simp at hnil

theorem noRepeatedMoveset_concat :
    NoRepeatedMoveset (gs ++ [g]) ↔
      NoRepeatedMoveset gs ∧ (g.moveset ≠ [] → g.moveset ≠ runningMoveset gs) := by
  constructor
  · intro h
    exact ⟨fun above' g' habove => h above' g' (habove.trans (List.prefix_append _ _)),
      h gs g (List.prefix_refl _)⟩
  · rintro ⟨hgs, hg⟩ above' g' habove
    rcases List.prefix_concat_iff.mp habove with heq | habove
    · obtain ⟨rfl, rfl⟩ := List.append_singleton_inj.mp heq
      exact hg
    · exact hgs above' g' habove

theorem NoRepeatedMoveset.filter_nonempty (h : NoRepeatedMoveset gs) :
    NoRepeatedMoveset (gs.filter (!·.actions.isEmpty)) := by
  induction gs using List.reverseRecOn with
  | nil => exact h
  | append_singleton gs g ih =>
    obtain ⟨hgs, hg⟩ := noRepeatedMoveset_concat.mp h
    rw [List.filter_append, List.filter_singleton]
    cases g.actions.isEmpty with
    | false =>
      rw [Bool.not_false, cond_true, noRepeatedMoveset_concat, runningMoveset_filter_nonempty]
      exact ⟨ih hgs, hg⟩
    | true =>
      rw [Bool.not_true, cond_false, List.append_nil]
      exact ih hgs

theorem noRepeatedMoveset_append (h : NoRepeatedMoveset above) (gs : List HpGroup) :
    NoRepeatedMoveset (above ++ dropRepeatedMovesets (runningMoveset above) gs) := by
  induction gs generalizing above with
  | nil => simpa [dropRepeatedMovesets] using h
  | cons g gs ih =>
    rw [dropRepeatedMovesets_cons, List.append_cons, ← HpGroup.inForce_compress,
      ← runningMoveset_concat]
    exact ih (noRepeatedMoveset_concat.mpr ⟨h, HpGroup.moveset_compress_ne⟩)

/-- **After the pass no group repeats the moveset above it.** -/
theorem noRepeatedMoveset_dropRepeatedMovesets (gs : List HpGroup) :
    NoRepeatedMoveset (dropRepeatedMovesets [] gs) :=
  noRepeatedMoveset_append noRepeatedMoveset_nil gs

theorem dropRepeatedMovesets_of_append (h : NoRepeatedMoveset (above ++ gs)) :
    dropRepeatedMovesets (runningMoveset above) gs = gs := by
  induction gs generalizing above with
  | nil => rfl
  | cons g gs ih =>
    have hg : g.moveset ≠ [] → g.moveset ≠ runningMoveset above :=
      h above g ⟨gs, (List.append_cons above g gs).symm⟩
    rw [List.append_cons] at h
    rw [dropRepeatedMovesets_cons, HpGroup.compress_eq_self hg, ← runningMoveset_concat, ih h]

/-- **Where no group repeats the moveset above it, the pass changes nothing.** -/
theorem dropRepeatedMovesets_eq_self (h : NoRepeatedMoveset gs) :
    dropRepeatedMovesets [] gs = gs := by
  have hgs : NoRepeatedMoveset ([] ++ gs) := h
  exact dropRepeatedMovesets_of_append hgs

end EnemyBehavior
