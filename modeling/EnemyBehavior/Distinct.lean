/-!
# First occurrences

`distinctOn key seen xs` keeps, in order, the elements of `xs` whose key has not been met before,
neither in `seen` nor earlier in `xs`.

## Main statements

* `mem_map_distinctOn` — every key outside `seen` that occurs is kept
* `nodup_map_distinctOn` — no key is kept twice
* `distinctOn_sublist` — nothing is reordered
* `distinctOn_append` — a list in two parts, one after the other
* `filter_distinctOn` — of the elements with one key, the first is kept
-/

namespace EnemyBehavior

variable {α β : Type} [DecidableEq β]

/-- The first element for each key that is not in `seen`. -/
def distinctOn (key : α → β) : (seen : List β) → List α → List α
  | _, [] => []
  | seen, x :: xs =>
    if key x ∈ seen then distinctOn key seen xs
    else x :: distinctOn key (key x :: seen) xs

theorem distinctOn_sublist (key : α → β) (seen : List β) (xs : List α) :
    (distinctOn key seen xs).Sublist xs := by
  induction xs generalizing seen with
  | nil => exact List.Sublist.slnil
  | cons x xs ih =>
    unfold distinctOn
    split
    · exact (ih seen).cons x
    · exact (ih _).cons_cons x

theorem mem_map_distinctOn {key : α → β} {seen : List β} {xs : List α} {k : β} :
    k ∈ (distinctOn key seen xs).map key ↔ k ∈ xs.map key ∧ k ∉ seen := by
  induction xs generalizing seen with
  | nil => simp [distinctOn]
  | cons x xs ih =>
    unfold distinctOn
    split <;> rename_i hx
    · rw [ih, List.map_cons, List.mem_cons]
      constructor
      · exact fun h => ⟨.inr h.1, h.2⟩
      · rintro ⟨rfl | h, hk⟩
        · exact absurd hx hk
        · exact ⟨h, hk⟩
    · rw [List.map_cons, List.mem_cons, ih, List.map_cons, List.mem_cons, List.mem_cons]
      constructor
      · rintro (rfl | ⟨h, hk⟩)
        · exact ⟨.inl rfl, hx⟩
        · exact ⟨.inr h, fun h' => hk (.inr h')⟩
      · rintro ⟨rfl | h, hk⟩
        · exact .inl rfl
        · by_cases he : k = key x
          · exact .inl he
          · exact .inr ⟨h, fun h' => h'.elim he hk⟩

theorem nodup_map_distinctOn (key : α → β) (seen : List β) (xs : List α) :
    ((distinctOn key seen xs).map key).Nodup := by
  induction xs generalizing seen with
  | nil => exact List.nodup_nil
  | cons x xs ih =>
    unfold distinctOn
    split
    · exact ih seen
    · rw [List.map_cons, List.nodup_cons]
      exact ⟨fun h => (mem_map_distinctOn.mp h).2 List.mem_cons_self, ih _⟩

theorem distinctOn_cons (key : α → β) (seen : List β) (x : α) (xs : List α) :
    distinctOn key seen (x :: xs) =
      if key x ∈ seen then distinctOn key seen xs
      else x :: distinctOn key (key x :: seen) xs := rfl

/-- In what order keys have been met, and how often, makes no difference. -/
theorem distinctOn_congr {key : α → β} {seen seen' : List β} (h : ∀ k, k ∈ seen ↔ k ∈ seen')
    (xs : List α) : distinctOn key seen xs = distinctOn key seen' xs := by
  induction xs generalizing seen seen' with
  | nil => rfl
  | cons x xs ih =>
    rw [distinctOn_cons, distinctOn_cons]
    by_cases hx : key x ∈ seen
    · rw [if_pos hx, if_pos ((h _).mp hx)]
      exact ih h
    · rw [if_neg hx, if_neg fun hx' => hx ((h _).mpr hx')]
      refine congrArg (x :: ·) (ih fun k => ?_)
      rw [List.mem_cons, List.mem_cons, h]

/-- In the second part of a list, a key is new if it is not among those kept of the first. -/
theorem distinctOn_append (key : α → β) (seen : List β) (xs ys : List α) :
    distinctOn key seen (xs ++ ys) = distinctOn key seen xs ++
      distinctOn key (seen ++ (distinctOn key seen xs).map key) ys := by
  induction xs generalizing seen with
  | nil => simp [distinctOn]
  | cons x xs ih =>
    rw [List.cons_append, distinctOn_cons, distinctOn_cons]
    by_cases hx : key x ∈ seen
    · rw [if_pos hx, if_pos hx]
      exact ih seen
    · have hmet : ∀ k, k ∈ (key x :: seen) ++ (distinctOn key (key x :: seen) xs).map key ↔
          k ∈ seen ++ (x :: distinctOn key (key x :: seen) xs).map key := by
        intro k
        simp only [List.map_cons, List.mem_append, List.mem_cons, or_left_comm, or_assoc]
      rw [if_neg hx, if_neg hx, ih, distinctOn_congr hmet, List.cons_append]

/-- Of the elements with a key that has not been met, the first one is kept. -/
theorem filter_distinctOn {key : α → β} {seen : List β} {k : β} (hk : k ∉ seen) (xs : List α) :
    (distinctOn key seen xs).filter (fun x => key x = k)
      = (xs.find? fun x => key x = k).toList := by
  induction xs generalizing seen with
  | nil => rfl
  | cons x xs ih =>
    rw [distinctOn_cons, List.find?_cons]
    by_cases hkey : key x = k
    · subst hkey
      have hrest :
          (distinctOn key (key x :: seen) xs).filter (fun y => key y = key x) = [] := by
        refine List.filter_eq_nil_iff.mpr fun y hy hsame => ?_
        have hmem := mem_map_distinctOn.mp (List.mem_map_of_mem hy)
        exact hmem.2 (List.mem_cons.mpr (.inl (of_decide_eq_true hsame)))
      rw [if_neg hk, List.filter_cons, hrest, if_pos (decide_eq_true rfl), decide_eq_true rfl]
      rfl
    · rw [decide_eq_false hkey]
      split
      · exact ih hk
      · have hk' : k ∉ key x :: seen := by
          rw [List.mem_cons, not_or]
          exact ⟨Ne.symm hkey, hk⟩
        rw [List.filter_cons, decide_eq_false hkey]
        exact ih hk'

end EnemyBehavior
