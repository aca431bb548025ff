/-!
# Ascending lists

A finite set of words or texts is written as the list of its members in ascending order, each
once. `ascending` gives that list for any list of members.

## Main statements

* `mem_ascending` — no member is lost or invented
* `pairwise_ascending` — the members of a set of words stand in strictly ascending order
* `eq_or_rel_of_find?` — in an ordered list the first element found is the least
-/

namespace EnemyBehavior

variable {α : Type} [LT α] [DecidableLT α] [DecidableEq α]

/-- Puts `x` at its place in an ascending list, unless it is there already. -/
def insertAscending (x : α) : List α → List α
  | [] => [x]
  | y :: ys =>
    if x = y then y :: ys
    else if x < y then x :: y :: ys
    else y :: insertAscending x ys

/-- The members of a list in ascending order, each once. -/
def ascending (xs : List α) : List α := xs.foldr insertAscending []

@[simp] theorem mem_insertAscending {x y : α} {ys : List α} :
    x ∈ insertAscending y ys ↔ x = y ∨ x ∈ ys := by
  induction ys with
  | nil => simp [insertAscending]
  | cons z zs ih =>
    unfold insertAscending
    split
    · rename_i h
      simp [h]
    · split
      · simp
      · simp only [List.mem_cons, ih]
        exact or_left_comm

@[simp] theorem mem_ascending {x : α} {xs : List α} : x ∈ ascending xs ↔ x ∈ xs := by
  induction xs with
  | nil => rfl
  | cons y ys ih =>
    rw [ascending, List.foldr_cons, mem_insertAscending, List.mem_cons]
    exact or_congr_right ih

/-! ## Words in order -/

theorem pairwise_insertAscending {x : UInt32} {ys : List UInt32} (h : ys.Pairwise (· < ·)) :
    (insertAscending x ys).Pairwise (· < ·) := by
  induction ys with
  | nil => simp [insertAscending]
  | cons y ys ih =>
    obtain ⟨hy, hys⟩ := List.pairwise_cons.mp h
    unfold insertAscending
    split
    · exact h
    · split
      · rename_i hlt
        refine List.pairwise_cons.mpr ⟨fun z hz => ?_, h⟩
        rcases List.mem_cons.mp hz with rfl | hz
        · exact hlt
        · exact UInt32.lt_trans hlt (hy z hz)
      · rename_i hne hge
        refine List.pairwise_cons.mpr ⟨fun z hz => ?_, ih hys⟩
        rcases mem_insertAscending.mp hz with rfl | hz
        · exact UInt32.lt_of_le_of_ne (UInt32.not_lt.mp hge) (Ne.symm hne)
        · exact hy z hz

theorem pairwise_ascending (xs : List UInt32) : (ascending xs).Pairwise (· < ·) := by
  induction xs with
  | nil => exact List.Pairwise.nil
  | cons x xs ih => exact pairwise_insertAscending ih

/-! ## Searching in order -/

/-- In an ordered list, the first element that is found comes before all others like it. -/
theorem eq_or_rel_of_find? {β : Type} {r : β → β → Prop} {found : β → Bool} {xs : List β} {x y : β}
    (hsorted : xs.Pairwise r) (hx : xs.find? found = some x) (hy : y ∈ xs)
    (hfound : found y = true) : y = x ∨ r x y := by
  obtain ⟨-, before, after, hsplit, hbefore⟩ := List.find?_eq_some_iff_append.mp hx
  rw [hsplit] at hsorted hy
  rcases List.mem_append.mp hy with hy | hy
  · have hnot := hbefore y hy
    rw [hfound] at hnot
    cases hnot
  · rcases List.mem_cons.mp hy with rfl | hy
    · exact .inl rfl
    · have hafter := (List.pairwise_append.mp hsorted).2.1
      exact .inr (List.rel_of_pairwise_cons hafter hy)

end EnemyBehavior
