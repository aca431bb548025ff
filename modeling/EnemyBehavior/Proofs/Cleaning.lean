import EnemyBehavior.Proofs.Movesets

/-!
# What cleaning a skillset keeps

Cleaning moves gated actions between groups and leaves repeated movesets out, but it loses no
action: what is taken out of a group stands in another one. Gated actions end up in the HP group
for their own threshold.

Each pass has its lemmas: relocation (`fileUnder`, `relocated`), order (`sortByCeiling`), movesets
(`dropRepeatedMovesets`, from what it does to one group). The results on `Skillset.clean` are put
together from them.

## Main statements

* `Skillset.reports_clean_iff`, `Skillset.reports_clean_iff_of_skill` — cleaning loses nothing
* `Skillset.isFunctionallyEmpty_eq_false_iff` — when a skillset has more than plain attacks
* `Skillset.wellPlaced_clean` — the gated actions of an HP group have its ceiling as threshold
* `Skillset.filter_clean_perm_relocated` — after relocation, all but standing actions stay
-/

namespace EnemyBehavior

variable {a b : Action} {key ceiling : UInt32} {gs : List HpGroup} {s : Skillset}

/-! ## Actions of groups -/

/-- The action has an HP gate. -/
def Action.isGated (a : Action) : Bool := a.hpThreshold?.isSome

/-- All actions of HP groups. -/
def groupActions (gs : List HpGroup) : List Action := gs.flatMap HpGroup.actions

/-- The gated actions of HP groups. -/
def gatedOf (gs : List HpGroup) : List Action := (groupActions gs).filter Action.isGated

/-- The action stands in a group for turns or for HP. -/
def Skillset.Reports (s : Skillset) (a : Action) : Prop :=
  (∃ g ∈ s.timed ++ s.repeating, a ∈ g.actions) ∨ a ∈ groupActions s.hp

instance (s : Skillset) (a : Action) : Decidable (s.Reports a) :=
  inferInstanceAs (Decidable (_ ∨ _))

@[simp] theorem mem_groupActions : a ∈ groupActions gs ↔ ∃ g ∈ gs, a ∈ g.actions :=
  List.mem_flatMap

@[simp] theorem groupActions_cons (g : HpGroup) (gs : List HpGroup) :
    groupActions (g :: gs) = g.actions ++ groupActions gs := List.flatMap_cons

theorem Action.isMisplaced_iff :
    a.isMisplaced key = true ↔ ∃ t, a.hpThreshold? = some t ∧ t ≠ key := by
  unfold isMisplaced
  cases a.hpThreshold? with
  | none => simp
  | some t => simp

theorem Action.isMisplaced_eq_false_iff :
    a.isMisplaced key = false ↔ ∀ t, a.hpThreshold? = some t → key = t := by
  rw [← Bool.not_eq_true, isMisplaced_iff, not_exists]
  refine forall_congr' fun t => ?_
  rw [not_and, not_not]
  exact imp_congr_right fun _ => eq_comm

theorem Action.isGated_of_isMisplaced (h : a.isMisplaced key = true) : a.isGated = true := by
  obtain ⟨t, ht, -⟩ := isMisplaced_iff.mp h
  rw [isGated, ht]
  rfl

theorem mem_placedActions {actions : List Action} :
    a ∈ placedActions key actions ↔ a ∈ actions ∧ a.isMisplaced key = false := by
  rw [placedActions, List.mem_filter, Bool.not_eq_true']

theorem mem_misplacedActions {actions : List Action} :
    a ∈ misplacedActions key actions ↔ a ∈ actions ∧ a.isMisplaced key = true := by
  rw [misplacedActions, List.mem_filter]

/-! ## Relocation -/

theorem Skillset.mem_misplaced :
    a ∈ s.misplaced ↔
      (∃ g ∈ s.timed ++ s.repeating, a ∈ g.actions ∧ a.isMisplaced g.hp = true) ∨
        ∃ g ∈ s.hp, a ∈ g.actions ∧ a.isMisplaced g.ceiling = true := by
  have hmem : a ∈ s.misplaced ↔ a ∈ s.misplaced.map id := by rw [List.map_id]
  rw [hmem, misplaced, mem_map_distinctOn]
  simp only [List.map_id, List.not_mem_nil, not_false_eq_true, and_true, List.mem_append,
    List.mem_flatMap, mem_misplacedActions]
  constructor
  · rintro ((⟨g, hg, ha⟩ | ⟨g, hg, ha⟩) | ⟨g, hg, ha⟩)
    · exact .inl ⟨g, .inl hg, ha⟩
    · exact .inl ⟨g, .inr hg, ha⟩
    · exact .inr ⟨g, hg, ha⟩
  · rintro (⟨g, hg | hg, ha⟩ | ⟨g, hg, ha⟩)
    · exact .inl (.inl ⟨g, hg, ha⟩)
    · exact .inl (.inr ⟨g, hg, ha⟩)
    · exact .inr ⟨g, hg, ha⟩

theorem Skillset.isGated_of_mem_misplaced (h : a ∈ s.misplaced) : a.isGated = true := by
  rcases mem_misplaced.mp h with ⟨g, -, -, hm⟩ | ⟨g, -, -, hm⟩
  · exact Action.isGated_of_isMisplaced hm
  · exact Action.isGated_of_isMisplaced hm

theorem Skillset.nodup_misplaced (s : Skillset) : s.misplaced.Nodup := by
  rw [← List.map_id s.misplaced]
  exact nodup_map_distinctOn id [] _

theorem mem_groupActions_fileUnder :
    b ∈ groupActions (fileUnder ceiling a gs) ↔ b = a ∨ b ∈ groupActions gs := by
  induction gs with
  | nil => simp [fileUnder]
  | cons g gs ih =>
    unfold fileUnder
    split
    · split
      · next hmem =>
        rw [groupActions_cons, List.mem_append]
        refine ⟨.inr, ?_⟩
        rintro (rfl | h)
        · exact .inl hmem
        · exact h
      · rw [groupActions_cons, groupActions_cons, List.mem_append, List.mem_append,
          List.mem_append, List.mem_singleton, or_comm (a := b ∈ g.actions), or_assoc]
    · rw [groupActions_cons, groupActions_cons, List.mem_append, List.mem_append, ih]
      exact or_left_comm

/-- Filing an action that is nowhere yet adds it once. -/
theorem groupActions_fileUnder_perm (h : a ∉ groupActions gs) :
    (groupActions (fileUnder ceiling a gs)).Perm (a :: groupActions gs) := by
  induction gs with
  | nil => exact .refl _
  | cons g gs ih =>
    rw [groupActions_cons, List.mem_append, not_or] at h
    unfold fileUnder
    split
    · rw [if_neg h.1, groupActions_cons, groupActions_cons, List.append_assoc,
        List.singleton_append]
      exact List.perm_middle
    · rw [groupActions_cons, groupActions_cons]
      exact ((ih h.2).append_left g.actions).trans List.perm_middle

theorem fileAction_of_isGated (gs : List HpGroup) (h : a.isGated = true) :
    ∃ t, a.hpThreshold? = some t ∧ fileAction gs a = fileUnder t a gs := by
  obtain ⟨t, ht⟩ := Option.isSome_iff_exists.mp h
  refine ⟨t, ht, ?_⟩
  simp only [fileAction, ht]

theorem mem_groupActions_foldl_fileAction {as : List Action} (has : ∀ a ∈ as, a.isGated = true) :
    b ∈ groupActions (as.foldl fileAction gs) ↔ b ∈ as ∨ b ∈ groupActions gs := by
  induction as generalizing gs with
  | nil => simp
  | cons a as ih =>
    obtain ⟨ha, has⟩ := List.forall_mem_cons.mp has
    obtain ⟨t, -, hfile⟩ := fileAction_of_isGated gs ha
    rw [List.foldl_cons, ih has, hfile, mem_groupActions_fileUnder, List.mem_cons]
    exact or_left_comm.trans or_assoc.symm

/-- Filing different actions that are nowhere yet adds each of them once. -/
theorem groupActions_foldl_fileAction_perm {as : List Action} (has : ∀ a ∈ as, a.isGated = true)
    (hnodup : as.Nodup) (hnew : ∀ a ∈ as, a ∉ groupActions gs) :
    (groupActions (as.foldl fileAction gs)).Perm (as ++ groupActions gs) := by
  induction as generalizing gs with
  | nil => exact .refl _
  | cons a as ih =>
    obtain ⟨ha, has⟩ := List.forall_mem_cons.mp has
    obtain ⟨hnot, hnodup⟩ := List.nodup_cons.mp hnodup
    obtain ⟨hanew, hnew⟩ := List.forall_mem_cons.mp hnew
    obtain ⟨t, -, hfile⟩ := fileAction_of_isGated gs ha
    rw [List.foldl_cons, hfile]
    have hrest : ∀ b ∈ as, b ∉ groupActions (fileUnder t a gs) := by
      intro b hb hmem
      rcases mem_groupActions_fileUnder.mp hmem with rfl | hmem
      · exact hnot hb
      · exact hnew b hb hmem
    have hone : (groupActions (fileUnder t a gs)).Perm (a :: groupActions gs) :=
      groupActions_fileUnder_perm hanew
    exact ((ih has hnodup hrest).trans (hone.append_left as)).trans List.perm_middle

theorem Skillset.mem_groupActions_relocated :
    a ∈ groupActions s.relocated ↔
      a ∈ s.misplaced ∨ ∃ g ∈ s.hp, a ∈ g.actions ∧ a.isMisplaced g.ceiling = false := by
  rw [relocated, mem_groupActions_foldl_fileAction fun _ h => isGated_of_mem_misplaced h]
  refine or_congr_right ?_
  rw [mem_groupActions]
  constructor
  · rintro ⟨_, hg, ha⟩
    obtain ⟨g, hmem, rfl⟩ := List.mem_map.mp hg
    exact ⟨g, hmem, mem_placedActions.mp ha⟩
  · rintro ⟨g, hg, ha⟩
    exact ⟨g.placed, List.mem_map_of_mem hg, mem_placedActions.mpr ha⟩

/-- Filing an action changes nothing among the others. -/
theorem filter_fileAction {f : Action → Bool} (ha : f a = false) :
    (groupActions (fileAction gs a)).filter f = (groupActions gs).filter f := by
  unfold fileAction
  cases a.hpThreshold? with
  | none => rfl
  | some threshold =>
    dsimp only
    induction gs with
    | nil => simp [fileUnder, groupActions, ha]
    | cons g gs ih =>
      unfold fileUnder
      split
      · split
        · rfl
        · simp [ha]
      · rw [groupActions_cons, groupActions_cons, List.filter_append, List.filter_append, ih]

theorem filter_foldl_fileAction {f : Action → Bool} {as : List Action}
    (has : ∀ a ∈ as, f a = false) :
    (groupActions (as.foldl fileAction gs)).filter f = (groupActions gs).filter f := by
  induction as generalizing gs with
  | nil => rfl
  | cons a as ih =>
    obtain ⟨ha, has⟩ := List.forall_mem_cons.mp has
    rw [List.foldl_cons, ih has, filter_fileAction ha]

section Ungated

variable {f : Action → Bool} (hf : ∀ a, a.isGated = true → f a = false)
include hf

theorem filter_placedActions (key : UInt32) (actions : List Action) :
    (placedActions key actions).filter f = actions.filter f := by
  rw [placedActions, List.filter_filter]
  refine List.filter_congr fun a _ => ?_
  cases hmis : a.isMisplaced key with
  | false => simp
  | true => simp [hf a (Action.isGated_of_isMisplaced hmis)]

/-- **Relocation changes nothing among the actions without a gate.** -/
theorem Skillset.filter_relocated (s : Skillset) :
    (groupActions s.relocated).filter f = (groupActions s.hp).filter f := by
  have hplaced : (groupActions (s.hp.map HpGroup.placed)).filter f
      = (groupActions s.hp).filter f := by
    unfold groupActions
    rw [List.flatMap_map, List.filter_flatMap, List.filter_flatMap]
    exact congrArg (List.flatMap · s.hp) (funext fun g => filter_placedActions hf _ g.actions)
  rw [relocated, filter_foldl_fileAction fun a ha => hf a (isGated_of_mem_misplaced ha), hplaced]

end Ungated

/-! ## Under their own threshold -/

/-- The gated actions of the group have its ceiling as threshold. -/
def HpGroup.WellPlaced (g : HpGroup) : Prop :=
  ∀ a ∈ g.actions, ∀ t, a.hpThreshold? = some t → g.ceiling = t

theorem HpGroup.wellPlaced_placed (g : HpGroup) : g.placed.WellPlaced :=
  fun _ ha => Action.isMisplaced_eq_false_iff.mp (mem_placedActions.mp ha).2

theorem wellPlaced_fileUnder (ha : a.hpThreshold? = some ceiling)
    (h : ∀ g ∈ gs, g.WellPlaced) : ∀ g ∈ fileUnder ceiling a gs, g.WellPlaced := by
  induction gs with
  | nil =>
    intro g hg b hb t ht
    obtain rfl := List.mem_singleton.mp hg
    obtain rfl := List.mem_singleton.mp hb
    exact Option.some.inj (ha.symm.trans ht)
  | cons g gs ih =>
    obtain ⟨hg, hgs⟩ := List.forall_mem_cons.mp h
    unfold fileUnder
    split
    · next heq =>
      refine List.forall_mem_cons.mpr ⟨?_, hgs⟩
      split
      · exact hg
      · intro b hb t ht
        rcases List.mem_append.mp hb with hb | hb
        · exact hg b hb t ht
        · obtain rfl := List.mem_singleton.mp hb
          exact heq.trans (Option.some.inj (ha.symm.trans ht))
    · exact List.forall_mem_cons.mpr ⟨hg, ih hgs⟩

theorem wellPlaced_foldl_fileAction {as : List Action} (has : ∀ a ∈ as, a.isGated = true)
    (h : ∀ g ∈ gs, g.WellPlaced) : ∀ g ∈ as.foldl fileAction gs, g.WellPlaced := by
  induction as generalizing gs with
  | nil => exact h
  | cons a as ih =>
    obtain ⟨ha, has⟩ := List.forall_mem_cons.mp has
    obtain ⟨t, ht, hfile⟩ := fileAction_of_isGated gs ha
    rw [List.foldl_cons, hfile]
    exact ih has (wellPlaced_fileUnder ht h)

theorem Skillset.wellPlaced_relocated (s : Skillset) : ∀ g ∈ s.relocated, g.WellPlaced := by
  refine wellPlaced_foldl_fileAction (fun _ h => isGated_of_mem_misplaced h) fun g hg => ?_
  obtain ⟨g, -, rfl⟩ := List.mem_map.mp hg
  exact g.wellPlaced_placed

/-! ## Order -/

theorem insertByCeiling_perm (g : HpGroup) (gs : List HpGroup) :
    (insertByCeiling g gs).Perm (g :: gs) := by
  induction gs with
  | nil => exact .refl _
  | cons h hs ih =>
    unfold insertByCeiling
    split
    · exact (ih.cons h).trans (.swap g h hs)
    · exact .refl _

theorem sortByCeiling_perm (gs : List HpGroup) : (sortByCeiling gs).Perm gs := by
  induction gs with
  | nil => exact .refl _
  | cons g gs ih => exact (insertByCeiling_perm g _).trans (ih.cons g)

theorem groupActions_sortByCeiling_perm (gs : List HpGroup) :
    (groupActions (sortByCeiling gs)).Perm (groupActions gs) :=
  (sortByCeiling_perm gs).flatMap_right _

/-! ## Movesets -/

theorem Action.isGated_eq_false_of_isStanding (h : a.isStanding = true) : a.isGated = false := by
  obtain ⟨hnone, -⟩ := Bool.and_eq_true_iff.mp h
  simpa [isGated] using hnone

/-- A group that is kept comes from one with the same ceiling and at least its actions. -/
theorem exists_of_mem_dropRepeatedMovesets {current : List Action} {g : HpGroup}
    (h : g ∈ dropRepeatedMovesets current gs) :
    ∃ g' ∈ gs, g.ceiling = g'.ceiling ∧ ∀ a ∈ g.actions, a ∈ g'.actions := by
  induction gs generalizing current with
  | nil => cases h
  | cons g' gs ih =>
    rw [dropRepeatedMovesets_cons] at h
    rcases List.mem_cons.mp h with rfl | h
    · exact ⟨g', List.mem_cons_self, g'.ceiling_compress current,
        fun _ ha => HpGroup.mem_of_mem_compress ha⟩
    · obtain ⟨g'', hmem, hsame⟩ := ih h
      exact ⟨g'', List.mem_cons_of_mem g' hmem, hsame⟩

/-- What a group loses stands in the moveset that was reported last, above it. -/
theorem mem_groupActions_dropRepeatedMovesets {current : List Action}
    (h : a ∈ groupActions gs) :
    a ∈ groupActions (dropRepeatedMovesets current gs) ∨ a ∈ current := by
  induction gs generalizing current with
  | nil => cases h
  | cons g gs ih =>
    rw [groupActions_cons, List.mem_append] at h
    rw [dropRepeatedMovesets_cons, groupActions_cons, List.mem_append]
    rcases h with h | h
    · exact (HpGroup.mem_compress_or h).imp_left .inl
    · have hrest : a ∈ groupActions (dropRepeatedMovesets (g.inForce current) gs)
          ∨ a ∈ g.inForce current := ih h
      rcases hrest with h | h
      · exact .inl (.inr h)
      · -- a moveset that comes into force at this group is kept in it
        exact (HpGroup.mem_compress_or_of_mem_inForce h).imp_left .inl

theorem mem_groupActions_dropRepeatedMovesets_iff :
    a ∈ groupActions (dropRepeatedMovesets [] gs) ↔ a ∈ groupActions gs := by
  constructor
  · intro h
    obtain ⟨g, hg, ha⟩ := mem_groupActions.mp h
    obtain ⟨g', hg', -, hsub⟩ := exists_of_mem_dropRepeatedMovesets hg
    exact mem_groupActions.mpr ⟨g', hg', hsub a ha⟩
  · intro h
    have hkept : a ∈ groupActions (dropRepeatedMovesets [] gs) ∨ a ∈ [] :=
      mem_groupActions_dropRepeatedMovesets h
    rcases hkept with h | h
    · exact h
    · cases h

/-- Movesets hold only standing actions, so all others stay where they are. -/
theorem filter_dropRepeatedMovesets {f : Action → Bool}
    (hf : ∀ a, a.isStanding = true → f a = false) (current : List Action) (gs : List HpGroup) :
    (groupActions (dropRepeatedMovesets current gs)).filter f = (groupActions gs).filter f := by
  induction gs generalizing current with
  | nil => rfl
  | cons g gs ih =>
    rw [dropRepeatedMovesets_cons, groupActions_cons, groupActions_cons, List.filter_append,
      List.filter_append, HpGroup.filter_compress hf, ih]

/-! ## Empty groups -/

theorem groupActions_filter_nonempty (gs : List HpGroup) :
    groupActions (gs.filter (!·.actions.isEmpty)) = groupActions gs := by
  induction gs with
  | nil => rfl
  | cons g gs ih =>
    rw [List.filter_cons]
    split
    · rw [groupActions_cons, groupActions_cons, ih]
    · next hempty =>
      have hnil : g.actions = [] := by simpa using hempty
      rw [groupActions_cons, hnil, List.nil_append, ih]

/-! ## All passes -/

theorem hasSkill_iff {actions : List Action} :
    hasSkill actions = true ↔ ∃ a ∈ actions, a.kind.isDefaultAttack = false := by
  unfold hasSkill
  rw [List.any_eq_true]
  simp only [Bool.not_eq_true']

namespace Skillset

/-- **A skillset is functionally empty unless some group holds a skill.** -/
theorem isFunctionallyEmpty_eq_false_iff :
    s.isFunctionallyEmpty = false ↔
      (∃ a, s.Reports a ∧ a.kind.isDefaultAttack = false) ∨
        ∃ g ∈ s.enemyCount, hasSkill g.actions = true ∨ g.followUp.any hasSkill = true := by
  unfold isFunctionallyEmpty Reports
  rw [Bool.not_eq_false']
  simp only [Bool.or_eq_true, List.any_eq_true, hasSkill_iff, mem_groupActions, List.mem_append]
  constructor
  · rintro (((⟨g, hg, a, ha, hskill⟩ | ⟨g, hg, a, ha, hskill⟩) | hcount) | ⟨g, hg, a, ha, hskill⟩)
    · exact .inl ⟨a, .inl ⟨g, .inl hg, ha⟩, hskill⟩
    · exact .inl ⟨a, .inl ⟨g, .inr hg, ha⟩, hskill⟩
    · exact .inr hcount
    · exact .inl ⟨a, .inr ⟨g, hg, ha⟩, hskill⟩
  · rintro (⟨a, ⟨g, hg | hg, ha⟩ | ⟨g, hg, ha⟩, hskill⟩ | hcount)
    · exact .inl (.inl (.inl ⟨g, hg, a, ha, hskill⟩))
    · exact .inl (.inl (.inr ⟨g, hg, a, ha, hskill⟩))
    · exact .inr ⟨g, hg, a, ha, hskill⟩
    · exact .inl (.inr hcount)

/-- The HP groups once gated actions are filed under their thresholds and groups stand in order. -/
def ordered (s : Skillset) : List HpGroup := sortByCeiling s.relocated

/-- Cleaning works on the groups only. -/
theorem clean_header (s : Skillset) :
    s.clean.level = s.level ∧ s.clean.baseAbilities = s.baseAbilities ∧
      s.clean.preemptives = s.preemptives := by
  unfold clean
  split <;> exact ⟨rfl, rfl, rfl⟩

theorem clean_of_empty (he : s.isFunctionallyEmpty = true) : s.clean = s.withoutGroups := by
  rw [clean, if_pos he]

section NotEmpty

variable (hne : s.isFunctionallyEmpty = false)
include hne

theorem clean_of_not_empty :
    s.clean =
      { s with
        timed := (s.timed.map TimedGroup.placed).filter (!·.actions.isEmpty)
        repeating := (s.repeating.map TimedGroup.placed).filter (!·.actions.isEmpty)
        enemyCount := s.enemyCount.filter (!·.isVoid)
        hp := (dropRepeatedMovesets [] (sortByCeiling s.relocated)).filter
          (!·.actions.isEmpty) } := by
  rw [clean, hne]
  rfl

theorem clean_hp :
    s.clean.hp = (dropRepeatedMovesets [] s.ordered).filter (!·.actions.isEmpty) := by
  rw [clean_of_not_empty hne]
  rfl

theorem mem_groupActions_clean : a ∈ groupActions s.clean.hp ↔ a ∈ groupActions s.relocated := by
  rw [clean_hp hne, groupActions_filter_nonempty, mem_groupActions_dropRepeatedMovesets_iff,
    ordered, (groupActions_sortByCeiling_perm _).mem_iff]

theorem clean_turns :
    s.clean.timed ++ s.clean.repeating
      = ((s.timed ++ s.repeating).map TimedGroup.placed).filter (!·.actions.isEmpty) := by
  rw [clean_of_not_empty hne, List.map_append, List.filter_append]

theorem exists_mem_clean_turns_iff :
    (∃ g ∈ s.clean.timed ++ s.clean.repeating, a ∈ g.actions) ↔
      ∃ g ∈ s.timed ++ s.repeating, a ∈ g.actions ∧ a.isMisplaced g.hp = false := by
  rw [clean_turns hne]
  constructor
  · rintro ⟨_, hg, ha⟩
    obtain ⟨g, hmem, rfl⟩ := List.mem_map.mp (List.mem_filter.mp hg).1
    exact ⟨g, hmem, mem_placedActions.mp ha⟩
  · rintro ⟨g, hg, ha⟩
    have hplaced : a ∈ g.placed.actions := mem_placedActions.mpr ha
    refine ⟨g.placed, List.mem_filter.mpr ⟨List.mem_map_of_mem hg, ?_⟩, hplaced⟩
    simpa using List.ne_nil_of_mem hplaced

/-- **Cleaning loses no action and invents none.** -/
theorem reports_clean_iff : s.clean.Reports a ↔ s.Reports a := by
  unfold Reports
  rw [exists_mem_clean_turns_iff hne, mem_groupActions_clean hne, mem_groupActions_relocated,
    mem_misplaced, mem_groupActions]
  constructor
  · rintro (⟨g, hg, ha, -⟩ | (⟨g, hg, ha, -⟩ | ⟨g, hg, ha, -⟩) | ⟨g, hg, ha, -⟩)
    · exact .inl ⟨g, hg, ha⟩
    · exact .inl ⟨g, hg, ha⟩
    · exact .inr ⟨g, hg, ha⟩
    · exact .inr ⟨g, hg, ha⟩
  · rintro (⟨g, hg, ha⟩ | ⟨g, hg, ha⟩)
    · cases hmis : a.isMisplaced g.hp with
      | false => exact .inl ⟨g, hg, ha, hmis⟩
      | true => exact .inr (.inl (.inl ⟨g, hg, ha, hmis⟩))
    · cases hmis : a.isMisplaced g.ceiling with
      | false => exact .inr (.inr ⟨g, hg, ha, hmis⟩)
      | true => exact .inr (.inl (.inr ⟨g, hg, ha, hmis⟩))

/-- **The gated actions of an HP group have its ceiling as threshold.** -/
theorem wellPlaced_clean : ∀ g ∈ s.clean.hp, g.WellPlaced := by
  rw [clean_hp hne]
  intro g hg a ha t ht
  obtain ⟨g', hg', hceiling, hsub⟩ :=
    exists_of_mem_dropRepeatedMovesets (List.mem_filter.mp hg).1
  have hmem : g' ∈ s.relocated := (sortByCeiling_perm _).mem_iff.mp hg'
  rw [hceiling]
  exact s.wellPlaced_relocated g' hmem a (hsub a ha) t ht

/-- **After relocation, all but standing actions stay as they are**, up to the order of groups. -/
theorem filter_clean_perm_relocated {f : Action → Bool}
    (hf : ∀ a, a.isStanding = true → f a = false) :
    ((groupActions s.clean.hp).filter f).Perm ((groupActions s.relocated).filter f) := by
  have hclean : (groupActions s.clean.hp).filter f = (groupActions s.ordered).filter f := by
    rw [clean_hp hne, groupActions_filter_nonempty, filter_dropRepeatedMovesets hf]
  rw [hclean]
  exact (groupActions_sortByCeiling_perm _).filter f

end NotEmpty

/-- For skills nothing needs to be known of the skillset. -/
theorem reports_clean_iff_of_skill (ha : a.kind.isDefaultAttack = false) :
    s.clean.Reports a ↔ s.Reports a := by
  cases hne : s.isFunctionallyEmpty with
  | false => exact reports_clean_iff hne
  | true =>
    rw [clean_of_empty hne]
    constructor
    · rintro (⟨g, hg, -⟩ | hmem)
      · cases hg
      · cases hmem
    · intro h
      rw [isFunctionallyEmpty_eq_false_iff.mpr (.inl ⟨a, h, ha⟩)] at hne
      cases hne

end Skillset

end EnemyBehavior
