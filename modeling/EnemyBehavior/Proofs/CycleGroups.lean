import EnemyBehavior.Proofs.Periodic
import EnemyBehavior.Proofs.Phases

/-!
# What the groups of a cycle hold

The groups of a cycle are the entries of some turns, less those that are steady: for a cycle of one
turn what the turns before it share with it, for a longer one what all of its turns share. So
nothing is lost between the groups and what is steady, and nothing is reported twice.

An entry stands here with the index of its turn (`Cycle.reported`). Groups carry the number of the
turn instead, a word; as long as all turns have a number, the groups stand in the same order.

## Main statements

* `Cycle.groupsFrom_eq_map` — groups are entries with the number of their turn
* `Cycle.mem_reportedFrom`, `Cycle.pairwise_reportedFrom` — which entries are reported, in order
* `Cycle.pairwise_groups` — the order of the groups
* `Cycle.groups_split_turn_maps` — turns are split without loss or duplication
-/

namespace EnemyBehavior

variable {turns : List TurnMap} {c : Cycle} {t index : Nat} {e : HpEntry}
  {steady : HpEntry → Bool}

/-! ## Entries of turns -/

/-- On the turn with this index the enemy uses these actions at this percentage. -/
def OnTurn (turns : List TurnMap) (t : Nat) (e : HpEntry) : Prop :=
  ∃ turn, turns[t]? = some turn ∧ turn.get? e.1 = some e.2

theorem TurnMap.get?_eq_some_iff {m : TurnMap} : m.get? e.1 = some e.2 ↔ e ∈ m.entries :=
  lookup_eq_some_iff m.descending

theorem onTurn_of_getElem? {turn : TurnMap} (h : turns[t]? = some turn) :
    OnTurn turns t e ↔ e ∈ turn.entries := by
  unfold OnTurn
  simp [h, TurnMap.get?_eq_some_iff]

theorem onTurn_take {n : Nat} : OnTurn (turns.take n) t e ↔ t < n ∧ OnTurn turns t e := by
  unfold OnTurn
  rw [List.getElem?_take]
  by_cases ht : t < n
  · simp [ht]
  · simp [ht]

theorem any_covers_iff : (turns[t]?).any (·.covers e) = true ↔ OnTurn turns t e := by
  unfold OnTurn
  rw [Option.any_eq_true]
  simp [TurnMap.covers, and_comm]

/-- The group that reports an entry of the turn with this index. -/
def TimedGroup.ofEntry (x : Nat × HpEntry) : TimedGroup :=
  ⟨Cycle.turnNumber x.1, x.2.1, x.2.2⟩

/-- Entries stand by ascending turn and, on each turn, by descending percentage. -/
def EntryBefore (x y : Nat × HpEntry) : Prop := x.1 < y.1 ∨ x.1 = y.1 ∧ y.2.1 < x.2.1

/-- Groups stand by ascending turn and, on each turn, by descending percentage. -/
def TimedGroup.Before (g h : TimedGroup) : Prop :=
  g.turn < h.turn ∨ g.turn = h.turn ∧ h.hp < g.hp

namespace Cycle

/-- Indices that can be counted stand for different turn numbers, in order. -/
theorem toNat_turnNumber (h : index + 1 < UInt32.size) : (turnNumber index).toNat = index + 1 :=
  UInt32.toNat_ofNat_of_lt' h

theorem before_of_entryBefore {x y : Nat × HpEntry} (h : EntryBefore x y)
    (hy : y.1 + 1 < UInt32.size) :
    (TimedGroup.ofEntry x).Before (TimedGroup.ofEntry y) := by
  rcases h with hturn | ⟨hturn, hhp⟩
  · left
    show turnNumber x.1 < turnNumber y.1
    rw [UInt32.lt_iff_toNat_lt, toNat_turnNumber hy, toNat_turnNumber (by omega)]
    omega
  · right
    exact ⟨congrArg turnNumber hturn, hhp⟩

/-! ## The entries that are reported -/

/-- The entries of successive turns that are not steady, each with the index of its turn. -/
def reportedFrom (steady : HpEntry → Bool) (index : Nat) (turns : List TurnMap) :
    List (Nat × HpEntry) :=
  (turns.zipIdx index).flatMap fun x => (x.1.entries.filter (!steady ·)).map (x.2, ·)

/-- **Groups are entries with the number of their turn.** -/
theorem groupsFrom_eq_map (steady : HpEntry → Bool) (index : Nat) (turns : List TurnMap) :
    groupsFrom steady index turns = (reportedFrom steady index turns).map TimedGroup.ofEntry := by
  induction turns generalizing index with
  | nil => rfl
  | cons turn turns ih =>
    have hrest : (reportedFrom steady index (turn :: turns))
        = (turn.entries.filter (!steady ·)).map (index, ·)
          ++ reportedFrom steady (index + 1) turns := by
      simp [reportedFrom, List.zipIdx_cons]
    rw [groupsFrom, ih, hrest, List.map_append, List.map_map]
    rfl

/-- **The entries that are reported are those that are not steady.** -/
theorem mem_reportedFrom :
    (t, e) ∈ reportedFrom steady index turns ↔
      index ≤ t ∧ OnTurn turns (t - index) e ∧ steady e = false := by
  unfold reportedFrom OnTurn
  simp only [List.mem_flatMap, List.mem_map, List.mem_filter, Bool.not_eq_true', Prod.mk.injEq]
  constructor
  · rintro ⟨x, hx, e', ⟨he, hsteady⟩, rfl, rfl⟩
    obtain ⟨hle, hturn⟩ := List.mem_zipIdx_iff_le_and_getElem?_sub.mp hx
    exact ⟨hle, ⟨x.1, hturn, TurnMap.get?_eq_some_iff.mpr he⟩, hsteady⟩
  · rintro ⟨hle, ⟨turn, hturn, he⟩, hsteady⟩
    have hmem : (turn, t) ∈ turns.zipIdx index :=
      List.mem_zipIdx_iff_le_and_getElem?_sub.mpr ⟨hle, hturn⟩
    exact ⟨(turn, t), hmem, e, ⟨TurnMap.get?_eq_some_iff.mp he, hsteady⟩, rfl, rfl⟩

/-- **They stand in order**, so none stands twice. -/
theorem pairwise_reportedFrom (steady : HpEntry → Bool) (index : Nat) (turns : List TurnMap) :
    (reportedFrom steady index turns).Pairwise EntryBefore := by
  unfold reportedFrom
  rw [List.pairwise_flatMap]
  -- on one turn the percentages descend, from turn to turn the indices ascend
  constructor
  · intro x _
    rw [List.pairwise_map]
    have hdescending : Descending (x.1.entries.filter (!steady ·)) :=
      List.Pairwise.filter _ x.1.descending
    exact hdescending.imp fun hlt => .inr ⟨rfl, hlt⟩
  · have hindices : (turns.zipIdx index).Pairwise fun x y => x.2 < y.2 := by
      rw [← List.pairwise_map, List.zipIdx_map_snd]
      exact List.pairwise_lt_range'
    refine hindices.imp fun {x y} hlt a ha b hb => ?_
    obtain ⟨_, -, rfl⟩ := List.mem_map.mp ha
    obtain ⟨_, -, rfl⟩ := List.mem_map.mp hb
    exact .inl hlt

/-- Groups of turns that all have a number stand in the order of their entries. -/
theorem pairwise_groupsFrom (hsize : index + turns.length < UInt32.size) :
    (groupsFrom steady index turns).Pairwise TimedGroup.Before := by
  rw [groupsFrom_eq_map, List.pairwise_map]
  refine (pairwise_reportedFrom steady index turns).imp_of_mem fun {x y} _ hy hbefore => ?_
  obtain ⟨hle, ⟨turn, hturn, -⟩, -⟩ := mem_reportedFrom.mp (show (y.1, y.2) ∈ _ from hy)
  have hlength := (List.getElem?_eq_some_iff.mp hturn).1
  exact before_of_entryBefore hbefore (by omega)

/-! ## The cycle -/

/-- All turns of the cycle have the entry. -/
def OnAllTurns (c : Cycle) (turns : List TurnMap) (e : HpEntry) : Prop :=
  ∀ t, c.start ≤ t → t < c.stop → OnTurn turns t e

/-- The entries that a cycle leaves to report, each with the index of its turn. -/
def reported (c : Cycle) (turns : List TurnMap) : List (Nat × HpEntry) :=
  if c.period = 1 then
    reportedFrom (fun e => (turns[c.start]?).any (·.covers e)) 0 (turns.take c.start)
  else reportedFrom (fun e => (c.body turns).all (·.covers e)) c.start (c.body turns)

theorem groups_eq_map (c : Cycle) (turns : List TurnMap) :
    c.groups turns = (c.reported turns).map TimedGroup.ofEntry := by
  unfold groups timedGroups repeatingGroups reported
  by_cases hperiod : c.period = 1
  · simp [hperiod, groupsFrom_eq_map]
  · simp [hperiod, groupsFrom_eq_map]

theorem emitted_eq_map (c : Cycle) (turns : List TurnMap) :
    c.emitted turns = (c.reported turns).map Prod.snd := by
  unfold emitted
  rw [groups_eq_map, List.map_map]
  rfl

theorem pairwise_reported (c : Cycle) (turns : List TurnMap) :
    (c.reported turns).Pairwise EntryBefore := by
  unfold reported
  split
  · exact pairwise_reportedFrom _ _ _
  · exact pairwise_reportedFrom _ _ _

/-- **The groups of a cycle stand in order** if all turns up to its end have a number. -/
theorem pairwise_groups (hlt : c.start < c.stop) (hstop : c.stop < UInt32.size) :
    (c.groups turns).Pairwise TimedGroup.Before := by
  unfold groups timedGroups repeatingGroups
  by_cases hperiod : c.period = 1
  · have hbefore : (turns.take c.start).length ≤ c.start := List.length_take_le _ _
    rw [if_pos hperiod, if_pos hperiod, List.append_nil]
    exact pairwise_groupsFrom (by omega)
  · have hbody : (c.body turns).length ≤ c.period := List.length_take_le _ _
    have hend := start_add_period hlt
    rw [if_neg hperiod, if_neg hperiod, List.nil_append]
    exact pairwise_groupsFrom (by omega)

theorem onTurn_body (ht : c.start ≤ t) :
    OnTurn (c.body turns) (t - c.start) e ↔ t - c.start < c.period ∧ OnTurn turns t e := by
  have hshift : c.start + (t - c.start) = t := by omega
  unfold OnTurn
  rw [getElem?_body, hshift]
  by_cases hin : t - c.start < c.period
  · simp [hin]
  · simp [hin]

/-- A group reports an entry of some turn. -/
theorem exists_entry_of_mem_groups {g : TimedGroup} (hg : g ∈ c.groups turns) :
    ∃ t e, OnTurn turns t e ∧ g = TimedGroup.ofEntry (t, e) := by
  rw [groups_eq_map] at hg
  obtain ⟨⟨t, e⟩, hreported, rfl⟩ := List.mem_map.mp hg
  refine ⟨t, e, ?_, rfl⟩
  unfold reported at hreported
  split at hreported
  · obtain ⟨-, hon, -⟩ := mem_reportedFrom.mp hreported
    exact (onTurn_take.mp hon).2
  · obtain ⟨hstart, hon, -⟩ := mem_reportedFrom.mp hreported
    exact ((onTurn_body hstart).mp hon).2

section Range

variable (hlt : c.start < c.stop) (hstop : c.stop ≤ turns.length)

include hlt hstop in
theorem all_covers_iff :
    (c.body turns).all (·.covers e) = true ↔ c.OnAllTurns turns e := by
  have hend := start_add_period hlt
  rw [List.all_eq_true]
  constructor
  · intro hall t ht htstop
    have hturn : t < turns.length := by omega
    have hmem : turns[t] ∈ c.body turns := by
      have hshift : c.start + (t - c.start) = t := by omega
      have hget := c.getElem?_body turns (t - c.start)
      rw [if_pos (by omega), hshift, List.getElem?_eq_getElem hturn] at hget
      exact List.mem_of_getElem? hget
    exact (onTurn_of_getElem? (List.getElem?_eq_getElem hturn)).mpr
      (TurnMap.covers_iff.mp (hall _ hmem))
  · intro hall turn hturn
    obtain ⟨k, hk⟩ := List.getElem?_of_mem hturn
    have hrange := (List.getElem?_eq_some_iff.mp hk).1
    have hbody : (c.body turns).length ≤ c.period := List.length_take_le _ _
    have hon : OnTurn (c.body turns) (c.start + k - c.start) e :=
      (onTurn_body (by omega)).mpr ⟨by omega, hall _ (by omega) (by omega)⟩
    rw [Nat.add_sub_cancel_left, onTurn_of_getElem? hk] at hon
    exact TurnMap.covers_iff.mpr hon

/-- Before a cycle of one turn, what is not the same on that turn is reported. -/
theorem mem_reported_of_one (hperiod : c.period = 1) :
    (t, e) ∈ c.reported turns ↔
      t < c.start ∧ OnTurn turns t e ∧ ¬ OnTurn turns c.start e := by
  rw [reported, if_pos hperiod, mem_reportedFrom, Nat.sub_zero, onTurn_take,
    ← Bool.not_eq_true, any_covers_iff, and_assoc, and_iff_right (Nat.zero_le t)]

include hlt hstop in
/-- In a longer cycle, what is not the same on all of its turns is reported. -/
theorem mem_reported_of_several (hperiod : c.period ≠ 1) :
    (t, e) ∈ c.reported turns ↔
      c.start ≤ t ∧ t < c.stop ∧ OnTurn turns t e ∧ ¬ c.OnAllTurns turns e := by
  rw [reported, if_neg hperiod, mem_reportedFrom, ← Bool.not_eq_true,
    all_covers_iff hlt hstop]
  refine and_congr_right fun ht => ?_
  have hend : t - c.start < c.period ↔ t < c.stop := by
    unfold period
    omega
  rw [onTurn_body ht, hend, and_assoc]

include hlt hstop in
/-- **A cycle splits the turn maps without loss or duplication.** What it reports are entries of
turns, strictly in order, so each of them gives exactly one group. Before a cycle of one turn,
these are the entries that differ from it. In a longer cycle, the map of each turn is the disjoint
union of the entries that are reported of it and of those that all turns share. -/
theorem groups_split_turn_maps :
    ∃ reported : List (Nat × HpEntry),
      c.groups turns = reported.map TimedGroup.ofEntry ∧
      c.emitted turns = reported.map Prod.snd ∧
      reported.Pairwise EntryBefore ∧
      (c.stop < UInt32.size → (c.groups turns).Pairwise TimedGroup.Before) ∧
      (c.stop - c.start = 1 →
        c.timedGroups turns = c.groups turns ∧ c.repeatingGroups turns = [] ∧
        ∀ t e, (t, e) ∈ reported ↔
          t < c.start ∧ OnTurn turns t e ∧ ¬ OnTurn turns c.start e) ∧
      (1 < c.stop - c.start →
        c.timedGroups turns = [] ∧ c.repeatingGroups turns = c.groups turns ∧
        (∀ x ∈ reported, c.start ≤ x.1 ∧ x.1 < c.stop) ∧
        ∀ t, c.start ≤ t → t < c.stop → ∀ e,
          (OnTurn turns t e ↔ (t, e) ∈ reported ∨ c.OnAllTurns turns e) ∧
            ¬ ((t, e) ∈ reported ∧ c.OnAllTurns turns e)) := by
  refine ⟨c.reported turns, c.groups_eq_map turns, c.emitted_eq_map turns,
    c.pairwise_reported turns, pairwise_groups hlt, ?_, ?_⟩
  · intro hone
    have hrepeating : c.repeatingGroups turns = [] := if_pos hone
    refine ⟨?_, hrepeating, fun t e => mem_reported_of_one hone⟩
    rw [groups, hrepeating, List.append_nil]
  · intro hseveral
    have hmem : ∀ t e, (t, e) ∈ c.reported turns ↔
        c.start ≤ t ∧ t < c.stop ∧ OnTurn turns t e ∧ ¬ c.OnAllTurns turns e :=
      fun t e => mem_reported_of_several hlt hstop (Nat.ne_of_gt hseveral)
    have htimed : c.timedGroups turns = [] := if_neg (Nat.ne_of_gt hseveral)
    refine ⟨htimed, ?_, ?_, ?_⟩
    · rw [groups, htimed, List.nil_append]
    · intro x hx
      obtain ⟨hstart, hend, -⟩ := (hmem x.1 x.2).mp hx
      exact ⟨hstart, hend⟩
    · intro t ht htstop e
      rw [hmem]
      by_cases hall : c.OnAllTurns turns e
      · simp [hall, hall t ht htstop]
      · simp [hall, ht, htstop]

end Range

/-- On both turns the enemy dispels at full HP; it deals gravity below half on the first turn, and
below a third on the second. -/
def laterGravityOnSecondTurn : List TurnMap := [
  ⟨[(100, [.mk 1 (.effect .dispel) none]), (49, [.mk 2 (.effect (.gravity 25)) none])],
    by decide⟩,
  ⟨[(100, [.mk 1 (.effect .dispel) none]), (32, [.mk 2 (.effect (.gravity 25)) none])],
    by decide⟩]

/-- The gravity is reported of both turns, and the dispelling of neither. -/
theorem groups_split_turn_maps_of_laterGravityOnSecondTurn :
    (0 < 2 ∧ 2 ≤ laterGravityOnSecondTurn.length) ∧
      (mk 0 2).repeatingGroups laterGravityOnSecondTurn = [
        ⟨1, 49, [.mk 2 (.effect (.gravity 25)) none]⟩,
        ⟨2, 32, [.mk 2 (.effect (.gravity 25)) none]⟩] ∧
      ∃ reported : List (Nat × HpEntry),
        (mk 0 2).groups laterGravityOnSecondTurn = reported.map TimedGroup.ofEntry ∧
        (1, (32, [.mk 2 (.effect (.gravity 25)) none])) ∈ reported ∧
        (1, (100, [.mk 1 (.effect .dispel) none])) ∉ reported := by
  have hlt : (mk 0 2).start < (mk 0 2).stop := by decide
  have hstop : (mk 0 2).stop ≤ laterGravityOnSecondTurn.length := by decide
  obtain ⟨reported, hgroups, -, -, -, -, hseveral⟩ := groups_split_turn_maps hlt hstop
  obtain ⟨-, -, -, hsplit⟩ := hseveral (by decide)
  refine ⟨⟨hlt, hstop⟩, by decide, reported, hgroups, ?_, ?_⟩
  · obtain ⟨hunion, -⟩ := hsplit 1 (by decide) (by decide)
      (32, [.mk 2 (.effect (.gravity 25)) none])
    have hon : OnTurn laterGravityOnSecondTurn 1 (32, [.mk 2 (.effect (.gravity 25)) none]) :=
      ⟨_, rfl, by decide⟩
    rcases hunion.mp hon with hreported | hall
    · exact hreported
    · -- the first turn does not have this entry
      obtain ⟨turn, hturn, hget⟩ := hall 0 (by decide) (by decide)
      cases hturn
      exact absurd hget (by decide)
  · intro hreported
    obtain ⟨-, hdisjoint⟩ := hsplit 1 (by decide) (by decide)
      (100, [.mk 1 (.effect .dispel) none])
    refine hdisjoint ⟨hreported, fun t _ ht => ?_⟩
    have ht : t = 0 ∨ t = 1 := by
      have hlt : t < 2 := ht
      omega
    rcases ht with rfl | rfl
    · exact ⟨_, rfl, by decide⟩
    · exact ⟨_, rfl, by decide⟩

end Cycle

end EnemyBehavior
