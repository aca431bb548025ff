import EnemyBehavior.TurnMap
import Mathlib.Data.List.Sort

/-!
# What a turn map holds

The map of a turn is made from samples in descending order of HP. Then no entry ever gives way to
another one, and the entries are the samples that show an action list for the first time.

## Main statements

* `mem_distinctOn` — the elements kept are the first ones for their keys
* `TurnMap.entries_ofSamples` — the entries are the first samples for their actions
* `TurnMap.ext_of_mem_iff` — a turn map is determined by which entries it has
* `TurnMap.covers_iff` — a turn covers the entries it has
-/

namespace EnemyBehavior

/-! ## First occurrences -/

section Distinct

variable {α β : Type} [DecidableEq β]

/-- What is kept has a new key, and no element before it in the list has that key. -/
theorem mem_distinctOn {key : α → β} {seen : List β} {xs : List α} {x : α} :
    x ∈ distinctOn key seen xs ↔
      key x ∉ seen ∧ ∃ as bs, xs = as ++ x :: bs ∧ ∀ a ∈ as, key a ≠ key x := by
  by_cases hx : key x ∈ seen
  · refine iff_of_false (fun h => ?_) fun h => h.1 hx
    exact (mem_map_distinctOn.mp (List.mem_map_of_mem h)).2 hx
  · have hfirst : x ∈ distinctOn key seen xs ↔ xs.find? (fun y => key y = key x) = some x := by
      rw [← Option.mem_toList, ← filter_distinctOn hx, List.mem_filter]
      simp
    rw [hfirst, List.find?_eq_some_iff_append]
    simp [hx]

theorem mem_of_mem_distinctOn {key : α → β} {seen : List β} {xs : List α} {x : α}
    (h : x ∈ distinctOn key seen xs) : x ∈ xs := (distinctOn_sublist key seen xs).subset h

end Distinct

/-! ## Entries in descending order -/

theorem insertEntry_below {entry : HpEntry} {es : List HpEntry} (h : ∀ e ∈ es, entry.1 < e.1) :
    insertEntry entry es = es ++ [entry] := by
  induction es with
  | nil => rfl
  | cons e es ih =>
    obtain ⟨he, hes⟩ := List.forall_mem_cons.mp h
    have hlt : ¬ e.1 < entry.1 := UInt32.lt_asymm he
    have hne : e.1 ≠ entry.1 := fun heq => UInt32.lt_irrefl _ (heq ▸ he)
    rw [insertEntry, if_neg hlt, if_neg hne, ih hes, List.cons_append]

namespace TurnMap

theorem entries_foldl_insert {m : TurnMap} {es : List HpEntry}
    (h : Descending (m.entries ++ es)) : (es.foldl insert m).entries = m.entries ++ es := by
  induction es generalizing m with
  | nil => rw [List.foldl_nil, List.append_nil]
  | cons e es ih =>
    have hbelow : ∀ x ∈ m.entries, e.1 < x.1 := fun x hx =>
      (List.pairwise_append.mp h).2.2 x hx e List.mem_cons_self
    have hinsert : (m.insert e).entries = m.entries ++ [e] := insertEntry_below hbelow
    have happend : (m.insert e).entries ++ es = m.entries ++ e :: es := by
      rw [hinsert, List.append_assoc, List.singleton_append]
    rw [List.foldl_cons, ih (by rw [happend]; exact h), happend]

/-- **The entries of a sampled turn are the first samples for their actions.** -/
theorem entries_ofSamples {samples : List HpEntry} (h : Descending samples) :
    (ofSamples samples).entries = distinctOn Prod.snd [] samples := by
  have hsub : Descending (distinctOn Prod.snd [] samples) :=
    List.Pairwise.sublist (distinctOn_sublist _ _ _) h
  unfold ofSamples
  rw [entries_foldl_insert (by simpa [empty] using hsub)]
  simp [empty]

/-- Sampling adds nothing, in whatever order the samples stand. -/
theorem mem_of_mem_foldl_insert {m : TurnMap} {es : List HpEntry} {e : HpEntry}
    (h : e ∈ (es.foldl insert m).entries) : e ∈ m.entries ∨ e ∈ es := by
  induction es generalizing m with
  | nil => exact .inl h
  | cons x es ih =>
    rcases ih h with h | h
    · rcases mem_insertEntry h with rfl | h
      · exact .inr List.mem_cons_self
      · exact .inl h
    · exact .inr (List.mem_cons_of_mem x h)

theorem mem_of_mem_ofSamples {samples : List HpEntry} {e : HpEntry}
    (h : e ∈ (ofSamples samples).entries) : e ∈ samples := by
  rcases mem_of_mem_foldl_insert h with h | h
  · cases h
  · exact mem_of_mem_distinctOn h

/-! ## Turn maps as sets of entries -/

theorem eq_of_descending {es es' : List HpEntry} (h : Descending es) (h' : Descending es')
    (hmem : ∀ e, e ∈ es ↔ e ∈ es') : es = es' := by
  have hantisymm : Std.Antisymm fun a b : HpEntry => b.1 < a.1 :=
    ⟨fun _ _ hab hba => absurd hba (UInt32.lt_asymm hab)⟩
  have hirrefl : Std.Irrefl fun a b : HpEntry => b.1 < a.1 := ⟨fun _ => UInt32.lt_irrefl _⟩
  exact List.Pairwise.eq_of_mem_iff h h' hmem

/-- **A turn map is determined by which entries it has.** -/
theorem ext_of_mem_iff {m m' : TurnMap} (h : ∀ e, e ∈ m.entries ↔ e ∈ m'.entries) : m = m' := by
  have hentries : m.entries = m'.entries := eq_of_descending m.descending m'.descending h
  cases m
  cases m'
  congr

theorem lookup_eq_some_iff {es : List HpEntry} (h : Descending es) {e : HpEntry} :
    es.lookup e.1 = some e.2 ↔ e ∈ es := by
  induction es with
  | nil => simp
  | cons x xs ih =>
    obtain ⟨hx, hxs⟩ := List.pairwise_cons.mp h
    rw [List.lookup_cons, List.mem_cons]
    by_cases heq : e.1 = x.1
    · -- the entries further down are for lower percentages
      have hnot : e ∉ xs := fun hmem => UInt32.lt_irrefl _ (heq ▸ hx e hmem)
      simp only [heq, beq_self_eq_true, hnot, or_false, Option.some.injEq]
      constructor
      · exact fun hsnd => Prod.ext heq hsnd.symm
      · rintro rfl
        rfl
    · have hne : e ≠ x := fun h => heq (congrArg Prod.fst h)
      simp only [beq_eq_false_iff_ne.mpr heq, hne, false_or]
      exact ih hxs

/-- A turn covers the entries it has. -/
theorem covers_iff {m : TurnMap} {e : HpEntry} : m.covers e = true ↔ e ∈ m.entries := by
  unfold covers get?
  rw [beq_iff_eq, lookup_eq_some_iff m.descending]

end TurnMap

end EnemyBehavior
