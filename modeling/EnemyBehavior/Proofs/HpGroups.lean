import EnemyBehavior.Proofs.HpSweep
import Mathlib.Data.List.Basic

/-!
# The groups of the HP sweep

The sweep over HP walks on one state, down the checkpoints. At each of them it makes a first walk,
and goes on as long as the walks show something new, up to `maxHpWalks`. What has been met at a
checkpoint is not new at a lower one. So the groups of the sweep are the first occurrences among
what all its walks show, less those that have been emitted for their percentage.

## Main statements

* `Program.length_probes_of_mem_sweepHp` — how many walks are made at a checkpoint
* `Program.sweptGroups_eq` — the groups as first occurrences
* `Program.filter_sweptGroups` — the one group for a behaviour
* `Program.hp_groups_distinct_complete` — the groups are distinct, in order and complete
-/

namespace EnemyBehavior

variable {p : Program} {s : BattleState} {checkpoints : List UInt32} {emitted : List HpEntry}
  {r : HpRecord} {g : HpGroup} {q : Probe} {actions : List Action}

/-- The percentage and the actions of a group. -/
def HpGroup.entry (g : HpGroup) : HpEntry := (g.ceiling, g.actions)

/-- The group for a behaviour at a percentage. -/
def HpGroup.ofEntry (e : HpEntry) : HpGroup := ⟨e.1, e.2⟩

/-- The groups of a checkpoint are its fresh behaviours, less those emitted. -/
theorem HpRecord.groups_eq (hhp : ∀ q ∈ r.probes, q.start.hp = r.hp) :
    r.groups emitted = (r.freshEntries.filter (· ∉ emitted)).map HpGroup.ofEntry := by
  have hentries : r.freshEntries = r.freshActions.map fun actions => (r.hp, actions) := by
    unfold freshEntries freshActions
    rw [List.map_map]
    refine List.map_congr_left fun step hstep => ?_
    have hmem : step.probe ∈ r.probes := List.mem_map_of_mem (List.mem_filter.mp hstep).1
    show (step.probe.start.hp, step.probe.actions) = (r.hp, step.probe.actions)
    rw [hhp _ hmem]
  rw [hentries, List.filter_map, List.map_map]
  rfl

namespace Program

/-! ## The walks -/

/-- The walks of the sweep, in order. -/
def sweptWalks (p : Program) (checkpoints : List UInt32) (s : BattleState) : List Probe :=
  (p.sweepHp checkpoints s).flatMap HpRecord.probes

/-- **At each checkpoint at least one walk is made and at most 32**, and 32 if all of them show
something new. -/
theorem length_probes_of_mem_sweepHp (h : r ∈ p.sweepHp checkpoints s) :
    1 ≤ r.probes.length ∧ r.probes.length ≤ 32 ∧
      (r.stillChanging = true → r.probes.length = 32) := by
  obtain ⟨t, seen, hr⟩ := exists_hpRecord_of_mem h
  have hsteps : r.steps = p.settle 32 { t with hp := r.hp } seen := congrArg HpRecord.steps hr
  have hlength : r.probes.length = (p.settle 32 { t with hp := r.hp } seen).length := by
    rw [HpRecord.probes, List.length_map, hsteps]
  rw [hlength]
  refine ⟨?_, p.length_settle_le _ _ _, fun hchanging => ?_⟩
  · obtain ⟨step, hstep, -⟩ := p.exists_settle_probe 31 { t with hp := r.hp } seen
    exact List.length_pos_of_mem hstep
  · unfold HpRecord.stillChanging at hchanging
    rw [hsteps] at hchanging
    exact length_settle_of_fresh (List.all_eq_true.mp hchanging)

theorem hp_of_mem_probes (h : r ∈ p.sweepHp checkpoints s) :
    ∀ q ∈ r.probes, q.start.hp = r.hp := fun _ hq => (sweepHpFrom_probes h hq).2

/-- HP goes down from walk to walk, or stays. -/
theorem pairwise_entry_sweptWalks (hdesc : checkpoints.Pairwise fun a b => b ≤ a) :
    ((p.sweptWalks checkpoints s).map Probe.entry).Pairwise fun e e' => e'.1 ≤ e.1 := by
  have hrecords : (p.sweepHp checkpoints s).Pairwise fun r r' => r'.hp ≤ r.hp := by
    rw [← p.map_hp_sweepHpFrom checkpoints s []] at hdesc
    exact List.pairwise_map.mp hdesc
  rw [List.pairwise_map, sweptWalks, List.pairwise_flatMap]
  constructor
  · intro r hr
    refine List.pairwise_of_forall_mem_list fun q hq q' hq' => ?_
    show q'.start.hp ≤ q.start.hp
    rw [hp_of_mem_probes hr q hq, hp_of_mem_probes hr q' hq']
    exact UInt32.le_refl _
  · refine hrecords.imp_of_mem fun {r r'} hr hr' hle q hq q' hq' => ?_
    show q'.start.hp ≤ q.start.hp
    rw [hp_of_mem_probes hr q hq, hp_of_mem_probes hr' q' hq']
    exact hle

/-! ## The groups -/

/-- The groups that the sweep adds, if some behaviours have been emitted before. -/
def sweptGroups (p : Program) (checkpoints : List UInt32) (s : BattleState)
    (emitted : List HpEntry) : List HpGroup :=
  (p.sweepHp checkpoints s).flatMap (HpRecord.groups emitted)

/-- **The groups are the first occurrences among what the walks show**, less those emitted. -/
theorem sweptGroups_eq (p : Program) (checkpoints : List UInt32) (s : BattleState)
    (emitted : List HpEntry) :
    p.sweptGroups checkpoints s emitted =
      ((distinctOn Prod.snd [] ((p.sweptWalks checkpoints s).map Probe.entry)).filter
        (· ∉ emitted)).map HpGroup.ofEntry := by
  have hgroups : p.sweptGroups checkpoints s emitted = (p.sweepHp checkpoints s).flatMap
      fun r => (r.freshEntries.filter (· ∉ emitted)).map HpGroup.ofEntry :=
    List.flatMap_congr fun r hr => HpRecord.groups_eq (hp_of_mem_probes hr)
  rw [hgroups, ← List.map_flatMap, ← List.filter_flatMap, sweepHp, freshEntries_sweepHpFrom]
  rfl

/-- **No two groups tell of the same behaviour.** -/
theorem nodup_actions_sweptGroups (p : Program) (checkpoints : List UInt32) (s : BattleState)
    (emitted : List HpEntry) :
    ((p.sweptGroups checkpoints s emitted).map HpGroup.actions).Nodup := by
  rw [sweptGroups_eq, List.map_map]
  exact (nodup_map_distinctOn Prod.snd [] _).sublist (List.filter_sublist.map _)

/-- The groups go down with HP. -/
theorem pairwise_ceiling_sweptGroups (hdesc : checkpoints.Pairwise fun a b => b ≤ a) :
    (p.sweptGroups checkpoints s emitted).Pairwise fun g g' => g'.ceiling ≤ g.ceiling := by
  rw [sweptGroups_eq, List.pairwise_map]
  have hfirst := distinctOn_sublist Prod.snd [] ((p.sweptWalks checkpoints s).map Probe.entry)
  exact (pairwise_entry_sweptWalks hdesc).sublist (List.filter_sublist.trans hfirst)

/-- No group tells of what has been emitted for its percentage. -/
theorem entry_not_mem_emitted (h : g ∈ p.sweptGroups checkpoints s emitted) :
    g.entry ∉ emitted := by
  rw [sweptGroups_eq] at h
  obtain ⟨e, he, rfl⟩ := List.mem_map.mp h
  exact of_decide_eq_true (List.mem_filter.mp he).2

/-- **A behaviour has its group where it was first shown**, and nowhere else, unless it has been
emitted for that percentage. -/
theorem filter_sweptGroups {first : Probe}
    (hfirst : (p.sweptWalks checkpoints s).find? (fun q => q.actions = actions) = some first) :
    (p.sweptGroups checkpoints s emitted).filter (fun g => g.actions = actions) =
      if first.entry ∈ emitted then [] else [.ofEntry first.entry] := by
  have hkept : (distinctOn Prod.snd [] ((p.sweptWalks checkpoints s).map Probe.entry)).filter
      (fun e => e.2 = actions) = [first.entry] := by
    rw [filter_distinctOn List.not_mem_nil, List.find?_map]
    exact congrArg (fun found => (found.map Probe.entry).toList) hfirst
  have hactions : (fun g : HpGroup => decide (g.actions = actions)) ∘ HpGroup.ofEntry
      = fun e => decide (e.2 = actions) := rfl
  rw [sweptGroups_eq, List.filter_map, hactions, List.filter_comm, hkept]
  by_cases hemitted : first.entry ∈ emitted
  · simp [hemitted]
  · simp [hemitted]

/-- **The HP sweep ends, never repeats itself, and leaves nothing out.** At each checkpoint at least
one walk is made at that percentage, and at most 32, and 32 if all of them show something new. The
behaviours of the groups are different ones, under ceilings that do not go up again, and
none of them has been emitted for its ceiling. What any walk shows is in one group, that for the
percentage of the walk which showed it first, or has been emitted for that percentage. -/
theorem hp_groups_distinct_complete (p : Program) (s : BattleState)
    (hdesc : checkpoints.Pairwise fun a b => b ≤ a) (emitted : List HpEntry) :
    (p.sweepHp checkpoints s).map HpRecord.hp = checkpoints ∧
      (∀ r ∈ p.sweepHp checkpoints s,
        1 ≤ r.probes.length ∧ r.probes.length ≤ 32 ∧
          (r.stillChanging = true → r.probes.length = 32) ∧ ∀ q ∈ r.probes, q.start.hp = r.hp) ∧
      ((p.sweptGroups checkpoints s emitted).map HpGroup.actions).Nodup ∧
      (p.sweptGroups checkpoints s emitted).Pairwise (fun g g' => g'.ceiling ≤ g.ceiling) ∧
      (∀ g ∈ p.sweptGroups checkpoints s emitted, g.entry ∉ emitted) ∧
      ∀ q ∈ p.sweptWalks checkpoints s, ∃ first,
        (p.sweptWalks checkpoints s).find? (fun w => w.actions = q.actions) = some first ∧
          (p.sweptGroups checkpoints s emitted).filter (fun g => g.actions = q.actions) =
            if first.entry ∈ emitted then [] else [⟨first.start.hp, q.actions⟩] := by
  refine ⟨p.map_hp_sweepHpFrom checkpoints s [], fun r hr => ?_,
    p.nodup_actions_sweptGroups checkpoints s emitted, pairwise_ceiling_sweptGroups hdesc,
    fun g hg => entry_not_mem_emitted hg, fun q hq => ?_⟩
  · obtain ⟨hone, hmany, hchanging⟩ := length_probes_of_mem_sweepHp hr
    exact ⟨hone, hmany, hchanging, hp_of_mem_probes hr⟩
  · obtain ⟨first, hfirst⟩ : ∃ first,
        (p.sweptWalks checkpoints s).find? (fun w => w.actions = q.actions) = some first :=
      Option.isSome_iff_exists.mp (List.find?_isSome.mpr ⟨q, hq, decide_eq_true rfl⟩)
    have hshown := List.find?_some hfirst
    have hactions : first.actions = q.actions := of_decide_eq_true hshown
    refine ⟨first, hfirst, ?_⟩
    rw [filter_sweptGroups hfirst, HpGroup.ofEntry, Probe.entry, hactions]

/-- The enemy deals gravity; below half HP it dispels first, once. -/
def dispelOnceBelowHalf : Program where
  nodes := #[
    .action (.mk 1 (.effect .dispel) (some ⟨100, 0, some 50, some 1⟩)),
    .action (.mk 2 (.effect (.gravity 25)) none)]
  staysWithin := by decide

/-- Gravity is shown first at full HP, for which it has been emitted, and gets no group further
down either. The dispel gets its group where it is shown. -/
theorem hp_groups_distinct_complete_of_dispelOnceBelowHalf :
    [100, 51, 50, 49].Pairwise (fun a b : UInt32 => b ≤ a) ∧
      (dispelOnceBelowHalf.sweptGroups [100, 51, 50, 49] (.start 1)
          [(100, [.mk 2 (.effect (.gravity 25)) none])]).filter
            (fun g => g.actions = [.mk 2 (.effect (.gravity 25)) none]) = [] ∧
      (dispelOnceBelowHalf.sweptGroups [100, 51, 50, 49] (.start 1)
          [(100, [.mk 2 (.effect (.gravity 25)) none])]).filter
            (fun g => g.actions = [.mk 1 (.effect .dispel) (some ⟨100, 0, some 50, some 1⟩)])
        = [⟨49, [.mk 1 (.effect .dispel) (some ⟨100, 0, some 50, some 1⟩)]⟩] := by
  have hdesc : [100, 51, 50, 49].Pairwise (fun a b : UInt32 => b ≤ a) := by decide
  obtain ⟨-, -, -, -, -, hgroup⟩ := hp_groups_distinct_complete dispelOnceBelowHalf (.start 1)
    hdesc [(100, [.mk 2 (.effect (.gravity 25)) none])]
  refine ⟨hdesc, ?_, ?_⟩
  · have hshown : ((dispelOnceBelowHalf.sweptWalks [100, 51, 50, 49] (.start 1)).find?
        (fun w => w.actions = [.mk 2 (.effect (.gravity 25)) none])).map Probe.entry
          = some (100, [.mk 2 (.effect (.gravity 25)) none]) := by decide +kernel
    obtain ⟨q, hq, hentry⟩ := Option.map_eq_some_iff.mp hshown
    have hactions : q.actions = _ := congrArg Prod.snd hentry
    obtain ⟨first, hfirst, hfilter⟩ := hgroup q (List.mem_of_find?_eq_some hq)
    rw [hactions] at hfirst hfilter
    obtain rfl : q = first := Option.some.inj (hq.symm.trans hfirst)
    rw [hfilter, hentry, if_pos (List.mem_singleton_self _)]
  · have hshown : ((dispelOnceBelowHalf.sweptWalks [100, 51, 50, 49] (.start 1)).find?
        (fun w => w.actions
          = [.mk 1 (.effect .dispel) (some ⟨100, 0, some 50, some 1⟩)])).map Probe.entry
          = some (49, [.mk 1 (.effect .dispel) (some ⟨100, 0, some 50, some 1⟩)]) := by
      decide +kernel
    obtain ⟨q, hq, hentry⟩ := Option.map_eq_some_iff.mp hshown
    have hactions : q.actions = _ := congrArg Prod.snd hentry
    have hpercentage : q.start.hp = 49 := congrArg Prod.fst hentry
    obtain ⟨first, hfirst, hfilter⟩ := hgroup q (List.mem_of_find?_eq_some hq)
    rw [hactions] at hfirst hfilter
    obtain rfl : q = first := Option.some.inj (hq.symm.trans hfirst)
    rw [hfilter, hentry, if_neg (by decide), hpercentage]

end Program

end EnemyBehavior
