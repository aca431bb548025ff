import EnemyBehavior.Proofs.CountSweep
import EnemyBehavior.Proofs.Recurrence

/-!
# The groups for numbers of enemies

The sweep over enemy counts reports a behaviour unless it has been met before: with all enemies
alive, at a higher count, or on the second walk of a higher count. So no two groups tell of the same
behaviour, and what a count shows is known from the start or told by a group for that count or a
higher one.

The groups of the sweep obey a recursion over the counts (`Program.countGroups_cons`), from which
all results on them are derived.

## Main statements

* `Program.countGroups_cons` — one count of the sweep, and the group it adds
* `Program.mem_countGroups` — what a group tells, and that it is new
* `Program.pairwise_countGroups` — no behaviour is reported twice
* `Program.exists_countGroup` — none is left out
* `Program.enemy_count_groups_distinct_complete` — the groups of an enemy
-/

namespace EnemyBehavior

variable {p : Program} {s : BattleState} {n : UInt32} {counts : List UInt32}
  {seen : List (List Action)} {g : EnemyCountGroup} {actions : List Action}

/-- The behaviours that the group tells of. -/
def EnemyCountGroup.behaviours (g : EnemyCountGroup) : List (List Action) :=
  g.actions :: g.followUp.toList

theorem EnemyCountGroup.mem_behaviours :
    actions ∈ g.behaviours ↔ actions = g.actions ∨ g.followUp = some actions := by
  unfold behaviours
  rw [List.mem_cons, Option.mem_toList]

namespace Program

/-! ## One number of enemies -/

/-- The actions of a walk on a copy of the state with this number of enemies. -/
def actionsWith (p : Program) (s : BattleState) (n : UInt32) : List Action :=
  (p.probe { s with enemies := n }).actions

/-- The actions of a second walk on the same copy. -/
def nextActionsWith (p : Program) (s : BattleState) (n : UInt32) : List Action :=
  (p.probe (p.probe { s with enemies := n }).final).actions

/-- The group for a number of enemies that shows something new. -/
def countGroup (p : Program) (s : BattleState) (n : UInt32) : EnemyCountGroup where
  count := n
  actions := p.actionsWith s n
  followUp :=
    if p.nextActionsWith s n = p.actionsWith s n then none else some (p.nextActionsWith s n)

/-- A second walk that shows the same as the first tells nothing more. -/
theorem mem_behaviours_countGroup :
    actions ∈ (p.countGroup s n).behaviours ↔
      actions = p.actionsWith s n ∨ actions = p.nextActionsWith s n := by
  rw [EnemyCountGroup.mem_behaviours]
  unfold countGroup
  by_cases hsame : p.nextActionsWith s n = p.actionsWith s n
  · simp [hsame]
  · simp [hsame, eq_comm]

/-- The second walk is recorded if it shows something else than the first. -/
theorem followUp_countGroup :
    (p.countGroup s n).followUp = some actions ↔
      actions = p.nextActionsWith s n ∧ actions ≠ p.actionsWith s n := by
  unfold countGroup
  by_cases hsame : p.nextActionsWith s n = p.actionsWith s n
  · simp [hsame]
  · simp only [hsame, if_false, Option.some.injEq]
    constructor
    · rintro rfl
      exact ⟨rfl, hsame⟩
    · exact fun h => h.1.symm

/-! ## The groups of the sweep -/

/-- The groups for the counts that show something new. -/
def countGroups (p : Program) (s : BattleState) (counts : List UInt32)
    (seen : List (List Action)) : List EnemyCountGroup :=
  (p.countRecords s counts seen).filterMap CountRecord.group?

/-- **One count of the sweep, and the group it adds.** -/
theorem countGroups_cons (p : Program) (s : BattleState) (n : UInt32) (counts : List UInt32)
    (seen : List (List Action)) :
    p.countGroups s (n :: counts) seen =
      if p.actionsWith s n ∈ seen then p.countGroups s counts seen
      else p.countGroup s n ::
        p.countGroups s counts (p.nextActionsWith s n :: p.actionsWith s n :: seen) := by
  unfold countGroups actionsWith
  rw [countRecords_cons]
  split
  · rfl
  · rfl

/-- Groups stand in the order of the counts that are tried. -/
theorem map_count_sublist (p : Program) (s : BattleState) (counts : List UInt32)
    (seen : List (List Action)) :
    ((p.countGroups s counts seen).map EnemyCountGroup.count).Sublist counts := by
  induction counts generalizing seen with
  | nil => exact .slnil
  | cons n counts ih =>
    rw [countGroups_cons]
    split
    · exact (ih seen).cons n
    · exact (ih _).cons_cons n

/-- **A group tells of the walks with its number of enemies, and its behaviour is new.** -/
theorem mem_countGroups (h : g ∈ p.countGroups s counts seen) :
    g = p.countGroup s g.count ∧ g.actions ∉ seen := by
  induction counts generalizing seen with
  | nil => cases h
  | cons n counts ih =>
    rw [countGroups_cons] at h
    split at h
    · exact ih h
    · next hnew =>
      rcases List.mem_cons.mp h with rfl | h
      · exact ⟨rfl, hnew⟩
      · obtain ⟨hgroup, hnot⟩ := ih h
        exact ⟨hgroup, fun hmem => hnot (by simp [hmem])⟩

/-- **No group tells of a behaviour that a group for a higher count tells of.** -/
theorem pairwise_countGroups (p : Program) (s : BattleState) (counts : List UInt32)
    (seen : List (List Action)) :
    (p.countGroups s counts seen).Pairwise fun g h => h.actions ∉ g.behaviours := by
  induction counts generalizing seen with
  | nil => exact .nil
  | cons n counts ih =>
    rw [countGroups_cons]
    split
    · exact ih seen
    · refine List.pairwise_cons.mpr ⟨fun h hmem hshown => ?_, ih _⟩
      obtain ⟨-, hnot⟩ := mem_countGroups hmem
      rcases mem_behaviours_countGroup.mp hshown with hfirst | hsecond
      · exact hnot (by simp [hfirst])
      · exact hnot (by simp [hsecond])

/-- **What a count shows has been met before, or a group for that count or a higher one tells of
it.** -/
theorem exists_countGroup (hdesc : counts.Pairwise fun a b => b < a) (hn : n ∈ counts) :
    p.actionsWith s n ∈ seen ∨
      ∃ g ∈ p.countGroups s counts seen, n ≤ g.count ∧ p.actionsWith s n ∈ g.behaviours := by
  induction counts generalizing seen with
  | nil => cases hn
  | cons count counts ih =>
    obtain ⟨hbelow, hdesc⟩ := List.pairwise_cons.mp hdesc
    rw [countGroups_cons]
    by_cases hseen : p.actionsWith s count ∈ seen
    · rw [if_pos hseen]
      rcases List.mem_cons.mp hn with rfl | hn
      · exact .inl hseen
      · exact ih hdesc hn
    · rw [if_neg hseen]
      rcases List.mem_cons.mp hn with rfl | hn
      · refine .inr ⟨_, List.mem_cons_self, UInt32.le_refl _, ?_⟩
        exact mem_behaviours_countGroup.mpr (.inl rfl)
      · -- what this count has added to `seen` its group tells of
        have hrest :
            p.actionsWith s n ∈ p.nextActionsWith s count :: p.actionsWith s count :: seen ∨ _ :=
          ih hdesc hn
        rcases hrest with hmem | ⟨g, hg, hle, hshown⟩
        · rw [List.mem_cons, List.mem_cons] at hmem
          rcases hmem with hsecond | hfirst | hold
          · refine .inr ⟨_, List.mem_cons_self, UInt32.le_of_lt (hbelow n hn), ?_⟩
            exact mem_behaviours_countGroup.mpr (.inr hsecond)
          · refine .inr ⟨_, List.mem_cons_self, UInt32.le_of_lt (hbelow n hn), ?_⟩
            exact mem_behaviours_countGroup.mpr (.inl hfirst)
          · exact .inl hold
        · exact .inr ⟨g, List.mem_cons_of_mem _ hg, hle, hshown⟩

/-! ## The groups of an enemy -/

variable {level : UInt32} {m : Simulation}

/-- Without a branch on the number of enemies there are no groups, and otherwise those of the
sweep. -/
theorem IsSimulation.enemyCount_draft (h : p.IsSimulation level m) :
    m.draft.enemyCount =
      if p.hasEnemyCountBranch then
        p.steady.countGroups m.settled enemyCounts [(p.steady.probe m.settled).actions]
      else [] := by
  unfold Simulation.draft
  rw [h.counts]
  split <;> rfl

/-- The groups of an enemy have descending counts from 6 to 1. -/
theorem IsSimulation.counts_draft (h : p.IsSimulation level m) :
    m.draft.enemyCount.Pairwise (fun g g' => g'.count < g.count) ∧
      ∀ g ∈ m.draft.enemyCount, 1 ≤ g.count ∧ g.count ≤ 6 := by
  have hsub : (m.draft.enemyCount.map EnemyCountGroup.count).Sublist enemyCounts := by
    rw [h.enemyCount_draft]
    split
    · exact map_count_sublist _ _ _ _
    · exact List.nil_sublist _
  constructor
  · exact List.pairwise_map.mp (enemyCounts_descending.sublist hsub)
  · intro g hg
    exact mem_enemyCounts.mp (hsub.subset (List.mem_map_of_mem hg))

/-- After the turns all enemies are still alive. -/
theorem IsSimulation.settled_with_all (h : p.IsSimulation level m) :
    { m.settled with enemies := 999 } = m.settled := by
  have henemies : m.settled.enemies = 999 := h.sameScene.2.enemies
  rw [← henemies]

/-- **The groups for numbers of enemies are distinct and complete.** Their counts go down from 6 to
1. Each tells of a walk with its number of enemies, and of the next one if that shows something
else; what it tells of first is neither what the enemy does with all enemies alive nor what a group
for a higher count tells of. What the enemy does with any number of enemies from 1 to 6 is what it
does with all alive, or a group for that number or a higher one tells of it. -/
theorem enemy_count_groups_distinct_complete (p : Program) (level : UInt32) {count : UInt32}
    {target : UInt64} (hbranch : .branchRemainingEnemies count target ∈ p.toList) :
    ∃ m, p.simulate level = .ok m ∧
      m.draft.enemyCount.Pairwise (fun g g' => g'.count < g.count) ∧
      (∀ g ∈ m.draft.enemyCount, 1 ≤ g.count ∧ g.count ≤ 6 ∧
        g.actions = p.steady.actionsWith m.settled g.count ∧
        g.actions ≠ p.steady.actionsWith m.settled 999 ∧
        ∀ next, g.followUp = some next ↔
          next = p.steady.nextActionsWith m.settled g.count ∧ next ≠ g.actions) ∧
      m.draft.enemyCount.Pairwise
        (fun g g' => g'.actions ≠ g.actions ∧ g.followUp ≠ some g'.actions) ∧
      ∀ n, 1 ≤ n → n ≤ 6 →
        p.steady.actionsWith m.settled n = p.steady.actionsWith m.settled 999 ∨
          ∃ g ∈ m.draft.enemyCount, n ≤ g.count ∧
            (p.steady.actionsWith m.settled n = g.actions ∨
              g.followUp = some (p.steady.actionsWith m.settled n)) := by
  obtain ⟨m, hm⟩ := p.exists_simulate level
  have hsim := simulate_eq_ok_iff.mp hm
  have hasks : p.hasEnemyCountBranch = true := List.any_eq_true.mpr ⟨_, hbranch, rfl⟩
  have hall : (p.steady.probe m.settled).actions = p.steady.actionsWith m.settled 999 := by
    rw [actionsWith, hsim.settled_with_all]
  have hgroups := hsim.enemyCount_draft
  rw [if_pos hasks, hall] at hgroups
  obtain ⟨hdesc, hrange⟩ := hsim.counts_draft
  refine ⟨m, hm, hdesc, fun g hg => ?_, ?_, fun n hone hsix => ?_⟩
  · obtain ⟨h1, h6⟩ := hrange g hg
    rw [hgroups] at hg
    obtain ⟨hgroup, hnew⟩ := mem_countGroups hg
    have hactions : g.actions = p.steady.actionsWith m.settled g.count :=
      congrArg EnemyCountGroup.actions hgroup
    refine ⟨h1, h6, hactions, ?_, fun next => ?_⟩
    · simpa using hnew
    · rw [hactions, congrArg EnemyCountGroup.followUp hgroup]
      exact followUp_countGroup
  · rw [hgroups]
    refine (pairwise_countGroups _ _ _ _).imp fun {g g'} hnot => ?_
    rw [EnemyCountGroup.mem_behaviours, not_or] at hnot
    exact hnot
  · have hmem : n ∈ enemyCounts := mem_enemyCounts.mpr ⟨hone, hsix⟩
    rw [hgroups]
    rcases exists_countGroup enemyCounts_descending hmem with hseen | ⟨g, hg, hle, hshown⟩
    · exact .inl (List.mem_singleton.mp hseen)
    · exact .inr ⟨g, hg, hle, EnemyCountGroup.mem_behaviours.mp hshown⟩

/-- With two enemies left the enemy dispels once and deals gravity from then on. -/
def dispelWhenTwoAreLeft : Program where
  nodes := #[
    .branchRemainingEnemies 2 3,
    .action (.mk 1 (.effect (.enrage 200 3)) none),
    .action (.mk 2 (.effect .dispel) (some ⟨100, 0, none, some 2⟩)),
    .action (.mk 3 (.effect (.gravity 25)) none)]
  staysWithin := by decide

/-- The dispelling is told for two enemies with the gravity after it, and not again for one. -/
theorem enemy_count_groups_distinct_complete_of_dispelWhenTwoAreLeft :
    .branchRemainingEnemies 2 3 ∈ dispelWhenTwoAreLeft.toList ∧
      ∃ m, dispelWhenTwoAreLeft.simulate 1 = .ok m ∧
        m.draft.enemyCount = [
          ⟨2, [.mk 2 (.effect .dispel) (some ⟨100, 0, none, some 2⟩)],
            some [.mk 3 (.effect (.gravity 25)) none]⟩] ∧
        (∀ next, some [.mk 3 (.effect (.gravity 25)) none] = some next ↔
          next = dispelWhenTwoAreLeft.steady.nextActionsWith m.settled 2 ∧
            next ≠ [.mk 2 (.effect .dispel) (some ⟨100, 0, none, some 2⟩)]) := by
  have hbranch : .branchRemainingEnemies 2 3 ∈ dispelWhenTwoAreLeft.toList := by decide
  obtain ⟨m, hm, -, hgroups, -⟩ :=
    enemy_count_groups_distinct_complete dispelWhenTwoAreLeft 1 hbranch
  have hruns : (dispelWhenTwoAreLeft.simulate 1).toOption.any (fun m =>
      m.draft.enemyCount = [
        ⟨2, [.mk 2 (.effect .dispel) (some ⟨100, 0, none, some 2⟩)],
          some [.mk 3 (.effect (.gravity 25)) none]⟩]) = true := by
    decide +kernel
  rw [hm] at hruns
  have hfound := of_decide_eq_true hruns
  rw [hfound] at hgroups
  obtain ⟨-, -, -, -, hnext⟩ := hgroups _ List.mem_cons_self
  exact ⟨hbranch, m, hm, hfound, hnext⟩

end Program

end EnemyBehavior
