import EnemyBehavior.Proofs.Cleaning

/-!
# Tidy skillsets

A skillset is tidy if nothing is left to clean: gated actions stand under their own thresholds, HP
groups stand in order, no group repeats the moveset in force above it, and no group is empty.
Cleaning makes every skillset tidy, and changes exactly those that are not. So it makes no
difference to clean twice.

## Main statements

* `pairwise_sortByCeiling`, `filter_sortByCeiling` — sorting is stable
* `Skillset.isTidy_clean` — cleaning makes a skillset tidy
* `Skillset.clean_eq_self_iff` — tidy skillsets are those that cleaning does not change
* `Skillset.clean_clean` — cleaning twice is cleaning once
* `Skillset.clean_keeps_contents` — cleaning loses and invents no action
* `Skillset.clean_compresses_movesets` — movesets are left out without loss
-/

namespace EnemyBehavior

variable {a : Action} {key : UInt32} {gs : List HpGroup} {s : Skillset}

/-! ## Order -/

theorem pairwise_insertByCeiling {g : HpGroup} (h : gs.Pairwise (·.ceiling ≥ ·.ceiling)) :
    (insertByCeiling g gs).Pairwise (·.ceiling ≥ ·.ceiling) := by
  induction gs with
  | nil => exact List.pairwise_singleton _ g
  | cons h' hs ih =>
    obtain ⟨habove, hs⟩ := List.pairwise_cons.mp h
    unfold insertByCeiling
    split
    · next hlt =>
      refine List.pairwise_cons.mpr ⟨fun g' hg' => ?_, ih hs⟩
      rcases List.mem_cons.mp ((insertByCeiling_perm g _).mem_iff.mp hg') with rfl | hg'
      · exact UInt32.le_of_lt hlt
      · exact habove g' hg'
    · next hle =>
      have hg : g.ceiling ≥ h'.ceiling := UInt32.not_lt.mp hle
      refine List.pairwise_cons.mpr ⟨fun g' hg' => ?_, h⟩
      rcases List.mem_cons.mp hg' with rfl | hg'
      · exact hg
      · exact UInt32.le_trans (habove g' hg') hg

/-- **Groups are sorted by descending ceiling.** -/
theorem pairwise_sortByCeiling (gs : List HpGroup) :
    (sortByCeiling gs).Pairwise (·.ceiling ≥ ·.ceiling) := by
  induction gs with
  | nil => exact .nil
  | cons g gs ih => exact pairwise_insertByCeiling ih

theorem filter_insertByCeiling (ceiling : UInt32) (g : HpGroup) (gs : List HpGroup) :
    (insertByCeiling g gs).filter (·.ceiling = ceiling)
      = (g :: gs).filter (·.ceiling = ceiling) := by
  induction gs with
  | nil => rfl
  | cons h hs ih =>
    unfold insertByCeiling
    split
    · next hlt =>
      rw [List.filter_cons, ih]
      -- the groups that change places have different ceilings
      by_cases hceiling : h.ceiling = ceiling
      · have hne : g.ceiling ≠ ceiling := hceiling ▸ UInt32.ne_of_lt hlt
        simp [hceiling, hne]
      · simp [List.filter_cons, hceiling]
    · rfl

/-- **Groups of equal ceiling keep their order.** -/
theorem filter_sortByCeiling (ceiling : UInt32) (gs : List HpGroup) :
    (sortByCeiling gs).filter (·.ceiling = ceiling) = gs.filter (·.ceiling = ceiling) := by
  induction gs with
  | nil => rfl
  | cons g gs ih =>
    rw [sortByCeiling, filter_insertByCeiling, List.filter_cons, List.filter_cons, ih]

theorem sortByCeiling_eq_self (h : gs.Pairwise (·.ceiling ≥ ·.ceiling)) :
    sortByCeiling gs = gs := by
  induction gs with
  | nil => rfl
  | cons g gs ih =>
    obtain ⟨hbelow, hgs⟩ := List.pairwise_cons.mp h
    rw [sortByCeiling, ih hgs]
    cases gs with
    | nil => rfl
    | cons h' hs => exact if_neg (UInt32.not_lt.mpr (hbelow h' List.mem_cons_self))

/-! ## Nothing is misplaced -/

theorem map_eq_self {α : Type} {f : α → α} {xs : List α} (h : ∀ x ∈ xs, f x = x) :
    xs.map f = xs :=
  (List.map_congr_left h).trans (List.map_id xs)

/-- The gated actions of the group have its percentage as threshold. -/
def TimedGroup.WellPlaced (g : TimedGroup) : Prop :=
  ∀ a ∈ g.actions, ∀ t, a.hpThreshold? = some t → g.hp = t

theorem TimedGroup.wellPlaced_placed (g : TimedGroup) : g.placed.WellPlaced :=
  fun _ ha => Action.isMisplaced_eq_false_iff.mp (mem_placedActions.mp ha).2

theorem placedActions_eq_self {actions : List Action}
    (h : ∀ a ∈ actions, ∀ t, a.hpThreshold? = some t → key = t) :
    placedActions key actions = actions :=
  List.filter_eq_self.mpr fun a ha => by
    rw [Action.isMisplaced_eq_false_iff.mpr (h a ha)]
    rfl

theorem TimedGroup.WellPlaced.placed_eq_self {g : TimedGroup} (h : g.WellPlaced) :
    g.placed = g := by
  rw [TimedGroup.placed, placedActions_eq_self h]

theorem HpGroup.WellPlaced.placed_eq_self {g : HpGroup} (h : g.WellPlaced) : g.placed = g := by
  rw [HpGroup.placed, placedActions_eq_self h]

/-- A group for a number of enemies says something by its actions or by a turn after. -/
theorem EnemyCountGroup.isVoid_eq_false_iff {g : EnemyCountGroup} :
    g.isVoid = false ↔ g.actions ≠ [] ∨ g.followUp ≠ none := by
  unfold isVoid
  rw [Bool.and_eq_false_iff, List.isEmpty_eq_false_iff, Option.isNone_eq_false_iff,
    Option.isSome_iff_ne_none]

theorem EnemyCountGroup.isVoid_eq_false_of_skill {g : EnemyCountGroup}
    (h : hasSkill g.actions = true ∨ g.followUp.any hasSkill = true) : g.isVoid = false := by
  refine isVoid_eq_false_iff.mpr ?_
  rcases h with h | h
  · obtain ⟨a, ha, -⟩ := hasSkill_iff.mp h
    exact .inl (List.ne_nil_of_mem ha)
  · refine .inr fun hnone => ?_
    rw [hnone] at h
    cases h

namespace Skillset

section WellPlaced

variable (hturns : ∀ g ∈ s.timed ++ s.repeating, g.WellPlaced) (hhp : ∀ g ∈ s.hp, g.WellPlaced)
include hturns hhp

theorem misplaced_eq_nil : s.misplaced = [] := by
  refine List.eq_nil_iff_forall_not_mem.mpr fun a ha => ?_
  rcases mem_misplaced.mp ha with ⟨g, hg, hmem, hmis⟩ | ⟨g, hg, hmem, hmis⟩
  · rw [Action.isMisplaced_eq_false_iff.mpr (hturns g hg a hmem)] at hmis
    cases hmis
  · rw [Action.isMisplaced_eq_false_iff.mpr (hhp g hg a hmem)] at hmis
    cases hmis

theorem relocated_eq_self : s.relocated = s.hp := by
  rw [relocated, misplaced_eq_nil hturns hhp, List.foldl_nil]
  exact map_eq_self fun g hg => (hhp g hg).placed_eq_self

end WellPlaced

/-! ## Tidy skillsets -/

/-- Nothing is left to clean. -/
structure IsTidy (s : Skillset) : Prop where
  turns : ∀ g ∈ s.timed ++ s.repeating, g.WellPlaced ∧ g.actions ≠ []
  counts : ∀ g ∈ s.enemyCount, g.isVoid = false
  hp : ∀ g ∈ s.hp, g.WellPlaced ∧ g.actions ≠ []
  ordered : s.hp.Pairwise (·.ceiling ≥ ·.ceiling)
  movesets : NoRepeatedMoveset s.hp
  /-- Groups are not reported for plain attacks alone. -/
  groups : s.isFunctionallyEmpty = true → s.withoutGroups = s

/-- **Cleaning leaves a tidy skillset as it is.** -/
theorem IsTidy.clean_eq_self (h : s.IsTidy) : s.clean = s := by
  cases hne : s.isFunctionallyEmpty with
  | true => rw [clean_of_empty hne, h.groups hne]
  | false =>
    have hturns : ∀ gs : List TimedGroup, (∀ g ∈ gs, g.WellPlaced ∧ g.actions ≠ []) →
        (gs.map TimedGroup.placed).filter (!·.actions.isEmpty) = gs := by
      intro gs hgs
      rw [map_eq_self fun g hg => (hgs g hg).1.placed_eq_self]
      exact List.filter_eq_self.mpr fun g hg => by simpa using (hgs g hg).2
    obtain ⟨htimed, hrepeating⟩ := List.forall_mem_append.mp h.turns
    have hcounts : s.enemyCount.filter (!·.isVoid) = s.enemyCount :=
      List.filter_eq_self.mpr fun g hg => by rw [h.counts g hg]; rfl
    have hrelocated : s.relocated = s.hp :=
      relocated_eq_self (fun g hg => (h.turns g hg).1) fun g hg => (h.hp g hg).1
    have hnonempty : s.hp.filter (!·.actions.isEmpty) = s.hp :=
      List.filter_eq_self.mpr fun g hg => by simpa using (h.hp g hg).2
    rw [clean_of_not_empty hne, hturns _ htimed, hturns _ hrepeating, hcounts, hrelocated,
      sortByCeiling_eq_self h.ordered, dropRepeatedMovesets_eq_self h.movesets, hnonempty]

/-- **Cleaning does not make a skillset functionally empty**, nor keep it from being so. -/
theorem isFunctionallyEmpty_clean (s : Skillset) :
    s.clean.isFunctionallyEmpty = s.isFunctionallyEmpty := by
  cases hne : s.isFunctionallyEmpty with
  | true =>
    rw [clean_of_empty hne]
    rfl
  | false =>
    refine isFunctionallyEmpty_eq_false_iff.mpr ?_
    rcases isFunctionallyEmpty_eq_false_iff.mp hne with ⟨a, ha, hskill⟩ | ⟨g, hg, hskill⟩
    · exact .inl ⟨a, (reports_clean_iff hne).mpr ha, hskill⟩
    · refine .inr ⟨g, ?_, hskill⟩
      rw [clean_of_not_empty hne]
      refine List.mem_filter.mpr ⟨hg, ?_⟩
      rw [EnemyCountGroup.isVoid_eq_false_of_skill hskill]
      rfl

/-- **Cleaning makes every skillset tidy.** -/
theorem isTidy_clean (s : Skillset) : s.clean.IsTidy := by
  cases hne : s.isFunctionallyEmpty with
  | true =>
    rw [clean_of_empty hne]
    exact ⟨nofun, nofun, nofun, .nil, noRepeatedMoveset_nil, fun _ => rfl⟩
  | false =>
    constructor
    case turns =>
      intro g hg
      rw [clean_turns hne] at hg
      obtain ⟨hplaced, hnonempty⟩ := List.mem_filter.mp hg
      obtain ⟨g, -, rfl⟩ := List.mem_map.mp hplaced
      exact ⟨g.wellPlaced_placed, by simpa using hnonempty⟩
    case counts =>
      intro g hg
      rw [clean_of_not_empty hne] at hg
      simpa using (List.mem_filter.mp hg).2
    case hp =>
      intro g hg
      refine ⟨wellPlaced_clean hne g hg, ?_⟩
      rw [clean_hp hne] at hg
      simpa using (List.mem_filter.mp hg).2
    case ordered =>
      rw [clean_hp hne]
      exact (pairwise_dropRepeatedMovesets [] (pairwise_sortByCeiling _)).filter _
    case movesets =>
      rw [clean_hp hne]
      exact (noRepeatedMoveset_dropRepeatedMovesets _).filter_nonempty
    case groups =>
      intro he
      rw [isFunctionallyEmpty_clean, hne] at he
      cases he

/-- Tidy skillsets are those that cleaning does not change. -/
theorem clean_eq_self_iff : s.clean = s ↔ s.IsTidy :=
  ⟨fun h => h ▸ s.isTidy_clean, IsTidy.clean_eq_self⟩

/-- **Cleaning twice is cleaning once.** -/
theorem clean_clean (s : Skillset) : s.clean.clean = s.clean :=
  s.isTidy_clean.clean_eq_self

/-! ## Contents -/

/-- **Cleaning loses and invents no action.** The header stays, and a skillset of plain attacks
only loses all groups. Any other has the same actions in its groups for turns and for HP, each
gated action under its own threshold; groups for numbers of enemies are left out only if they say
nothing, and no group is left empty. -/
theorem clean_keeps_contents (s : Skillset) :
    (s.clean.level = s.level ∧ s.clean.baseAbilities = s.baseAbilities ∧
      s.clean.preemptives = s.preemptives) ∧
    s.clean.isFunctionallyEmpty = s.isFunctionallyEmpty ∧
    (s.isFunctionallyEmpty = true →
      s.clean.timed = [] ∧ s.clean.repeating = [] ∧ s.clean.enemyCount = [] ∧ s.clean.hp = []) ∧
    (s.isFunctionallyEmpty = false →
      (∀ a, s.clean.Reports a ↔ s.Reports a) ∧
      (∀ g ∈ s.clean.timed ++ s.clean.repeating, g.actions ≠ [] ∧
        ∀ a ∈ g.actions, ∀ t, a.hpThreshold? = some t → g.hp = t) ∧
      (∀ g ∈ s.clean.hp, g.actions ≠ [] ∧
        ∀ a ∈ g.actions, ∀ t, a.hpThreshold? = some t → g.ceiling = t) ∧
      s.clean.enemyCount = s.enemyCount.filter fun g => g.actions ≠ [] ∨ g.followUp ≠ none) := by
  have htidy := s.isTidy_clean
  refine ⟨s.clean_header, s.isFunctionallyEmpty_clean, fun he => ?_, fun hne => ?_⟩
  · rw [clean_of_empty he]
    exact ⟨rfl, rfl, rfl, rfl⟩
  · refine ⟨fun a => reports_clean_iff hne, fun g hg => (htidy.turns g hg).symm,
      fun g hg => (htidy.hp g hg).symm, ?_⟩
    rw [clean_of_not_empty hne]
    refine List.filter_congr fun g _ => ?_
    rw [Bool.eq_iff_iff, Bool.not_eq_true', EnemyCountGroup.isVoid_eq_false_iff,
      decide_eq_true_iff]

/-! ## Movesets -/

/-- **Repeated movesets are left out without loss.** The groups are put in order of descending
ceiling, equal ceilings as they came. Leaving movesets out then changes the moveset in force at no
group, and keeps all actions with a gate in their groups, in order. After empty groups are dropped,
no group has a moveset that is in force above it. -/
theorem clean_compresses_movesets (hne : s.isFunctionallyEmpty = false) :
    (s.ordered.Pairwise (·.ceiling ≥ ·.ceiling) ∧
      ∀ ceiling, s.ordered.filter (·.ceiling = ceiling)
        = s.relocated.filter (·.ceiling = ceiling)) ∧
    (∀ n, runningMoveset ((dropRepeatedMovesets [] s.ordered).take n)
      = runningMoveset (s.ordered.take n)) ∧
    List.Forall₂ (fun g g' => g'.ceiling = g.ceiling ∧
        g'.actions.filter (!·.isStanding) = g.actions.filter (!·.isStanding))
      s.ordered (dropRepeatedMovesets [] s.ordered) ∧
    s.clean.hp = (dropRepeatedMovesets [] s.ordered).filter (!·.actions.isEmpty) ∧
    NoRepeatedMoveset s.clean.hp := by
  have hothers : ∀ a : Action, a.isStanding = true → (!a.isStanding) = false :=
    fun a ha => by rw [ha]; rfl
  refine ⟨⟨pairwise_sortByCeiling _, fun ceiling => filter_sortByCeiling ceiling _⟩,
    runningMoveset_dropRepeatedMovesets _, forall₂_dropRepeatedMovesets hothers [] _,
    clean_hp hne, s.isTidy_clean.movesets⟩

/-- At 49 percent the enemy does what it does from the start; at 30 it also dispels once. -/
def dispelsOnceBelow : Skillset where
  level := 1
  baseAbilities := []
  preemptives := []
  timed := []
  repeating := []
  enemyCount := []
  hp := [
    ⟨49, [.mk 1 (.effect (.gravity 25)) none]⟩,
    ⟨100, [.mk 1 (.effect (.gravity 25)) none]⟩,
    ⟨30, [.mk 1 (.effect (.gravity 25)) none,
      .mk 2 (.effect .dispel) (some ⟨100, 0, none, some 1⟩)]⟩,
    ⟨20, [.mk 3 (.effect .inactivity) none]⟩,
    ⟨10, [.mk 1 (.effect (.gravity 25)) none]⟩]

/-- Its gravity is reported at full HP, and again after another moveset. -/
theorem clean_compresses_movesets_of_dispelsOnceBelow :
    dispelsOnceBelow.isFunctionallyEmpty = false ∧
      dispelsOnceBelow.clean.hp = [
        ⟨100, [.mk 1 (.effect (.gravity 25)) none]⟩,
        ⟨30, [.mk 2 (.effect .dispel) (some ⟨100, 0, none, some 1⟩)]⟩,
        ⟨20, [.mk 3 (.effect .inactivity) none]⟩,
        ⟨10, [.mk 1 (.effect (.gravity 25)) none]⟩] ∧
      runningMoveset ((dropRepeatedMovesets [] dispelsOnceBelow.ordered).take 3)
        = [.mk 1 (.effect (.gravity 25)) none] := by
  have hne : dispelsOnceBelow.isFunctionallyEmpty = false := by decide
  obtain ⟨-, hrunning, -, hclean, -⟩ := clean_compresses_movesets hne
  refine ⟨hne, ?_, ?_⟩
  · rw [hclean]
    decide
  · rw [hrunning]
    decide

end Skillset

end EnemyBehavior
