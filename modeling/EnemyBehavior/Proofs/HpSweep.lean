import EnemyBehavior.Proofs.Run
import EnemyBehavior.Sweep.Hp

/-!
# The walks of the HP sweep

The HP sweep hands one state from walk to walk. Each of its walks is made at the percentage of its
checkpoint, and what a walk shows is recorded as fresh the first time. So the fresh behaviours of
all checkpoints are the first occurrences among what the walks show, one after another.

## Main statements

* `Program.sweepHpFrom_holds` — what walks and changes of HP keep holds throughout the sweep
* `Program.sweepHpFrom_probes` — each walk is made at the percentage of its checkpoint
* `Program.freshEntries_sweepHpFrom` — what is fresh, as first occurrences
* `Program.mem_freshActions_sweepHp_iff` — every behaviour that a walk shows is fresh somewhere
* `Program.probe_mem_sweepHp` — the sweep begins with a walk at its first checkpoint
-/

namespace EnemyBehavior

variable {p : Program} {walks : Nat} {s : BattleState} {seen : List (List Action)}
  {checkpoints : List UInt32} {actions : List Action} {Holds : BattleState → Prop}

/-! ## Records -/

namespace HpRecord

variable {r : HpRecord}

theorem mem_freshActions :
    actions ∈ r.freshActions ↔
      ∃ step ∈ r.steps, step.fresh = true ∧ step.probe.actions = actions := by
  unfold freshActions
  simp only [List.mem_map, List.mem_filter, and_assoc]

theorem exists_probe_of_mem_freshActions (h : actions ∈ r.freshActions) :
    ∃ q ∈ r.probes, q.actions = actions := by
  obtain ⟨step, hstep, -, hactions⟩ := mem_freshActions.mp h
  exact ⟨step.probe, List.mem_map_of_mem hstep, hactions⟩

/-- A group holds a fresh behaviour that has not been emitted. -/
theorem mem_groups {emitted : List HpEntry} {g : HpGroup} :
    g ∈ r.groups emitted ↔
      g.ceiling = r.hp ∧ g.actions ∈ r.freshActions ∧ (r.hp, g.actions) ∉ emitted := by
  unfold groups
  simp only [List.mem_map, List.mem_filter, decide_eq_true_eq]
  constructor
  · rintro ⟨actions, ⟨hfresh, hnew⟩, rfl⟩
    exact ⟨rfl, hfresh, hnew⟩
  · rintro ⟨hceiling, hfresh, hnew⟩
    refine ⟨g.actions, ⟨hfresh, hnew⟩, ?_⟩
    rw [← hceiling]

theorem final_cons (hp : UInt32) (step : HpStep) (steps : List HpStep) (s : BattleState) :
    (HpRecord.mk hp (step :: steps)).final s = (HpRecord.mk hp steps).final step.probe.final := by
  unfold final
  rw [List.getLast?_cons]
  cases steps.getLast? <;> rfl

theorem freshActions_cons (hp : UInt32) (step : HpStep) (steps : List HpStep) :
    (HpRecord.mk hp (step :: steps)).freshActions
      = if step.fresh then step.probe.actions :: (HpRecord.mk hp steps).freshActions
        else (HpRecord.mk hp steps).freshActions := by
  unfold freshActions
  rw [List.filter_cons]
  split <;> rfl

/-- The walks that showed something new, with their percentages. -/
def freshEntries (r : HpRecord) : List HpEntry := (r.steps.filter (·.fresh)).map (·.probe.entry)

theorem map_snd_freshEntries (r : HpRecord) : r.freshEntries.map Prod.snd = r.freshActions := by
  unfold freshEntries
  rw [List.map_map]
  rfl

end HpRecord

/-! ## The walks at one checkpoint -/

namespace Program

theorem settle_succ (p : Program) (walks : Nat) (s : BattleState) (seen : List (List Action)) :
    p.settle (walks + 1) s seen =
      if (p.probe s).actions ∈ seen then [⟨p.probe s, false⟩]
      else ⟨p.probe s, true⟩ ::
        p.settle walks (p.probe s).final ((p.probe s).actions :: seen) := rfl

/-- Each step walks from its own start, at the percentage of the checkpoint. -/
theorem settle_probe {step : HpStep} (h : step ∈ p.settle walks s seen) :
    step.probe = p.probe step.probe.start ∧ step.probe.start.hp = s.hp := by
  induction walks generalizing s seen with
  | zero => cases h
  | succ walks ih =>
    rw [settle_succ] at h
    split at h
    · obtain rfl := List.mem_singleton.mp h
      exact ⟨rfl, rfl⟩
    · rcases List.mem_cons.mp h with rfl | h
      · exact ⟨rfl, rfl⟩
      · obtain ⟨hprobe, hhp⟩ := ih h
        exact ⟨hprobe, hhp.trans (p.final_sameSituation s).hp⟩

/-- The first walk is made from the given state. -/
theorem exists_settle_probe (p : Program) (walks : Nat) (s : BattleState)
    (seen : List (List Action)) :
    ∃ step ∈ p.settle (walks + 1) s seen, step.probe = p.probe s := by
  rw [settle_succ]
  split
  · exact ⟨_, List.mem_cons_self, rfl⟩
  · exact ⟨_, List.mem_cons_self, rfl⟩

/-- No more walks are made than allowed. -/
theorem length_settle_le (p : Program) (walks : Nat) (s : BattleState)
    (seen : List (List Action)) : (p.settle walks s seen).length ≤ walks := by
  induction walks generalizing s seen with
  | zero => exact Nat.le_refl 0
  | succ walks ih =>
    rw [settle_succ]
    split
    · exact Nat.succ_le_succ (Nat.zero_le walks)
    · exact Nat.succ_le_succ (ih _ _)

/-- As long as the walks show something new, more are made. -/
theorem length_settle_of_fresh (h : ∀ step ∈ p.settle walks s seen, step.fresh = true) :
    (p.settle walks s seen).length = walks := by
  induction walks generalizing s seen with
  | zero => rfl
  | succ walks ih =>
    rw [settle_succ] at h ⊢
    split at h
    · have hfirst := h _ List.mem_cons_self
      cases hfirst
    · next hnew =>
      rw [if_neg hnew]
      exact congrArg (· + 1) (ih (List.forall_mem_cons.mp h).2)

/-- **What a walk keeps holds before and after all walks at a checkpoint.** -/
theorem settle_holds (hwalk : ∀ t, Holds t → Holds (p.trace t).final) (hs : Holds s)
    {step : HpStep} (h : step ∈ p.settle walks s seen) :
    Holds step.probe.start ∧ Holds step.probe.final := by
  induction walks generalizing s seen with
  | zero => cases h
  | succ walks ih =>
    have hfirst : Holds (p.probe s).final := hwalk s hs
    rw [settle_succ] at h
    split at h
    · obtain rfl := List.mem_singleton.mp h
      exact ⟨hs, hfirst⟩
    · rcases List.mem_cons.mp h with rfl | h
      · exact ⟨hs, hfirst⟩
      · exact ih hfirst h

/-- The walks that show something new are the first occurrences. -/
theorem map_entry_filter_settle (p : Program) (walks : Nat) (s : BattleState)
    (seen : List (List Action)) :
    ((p.settle walks s seen).filter (·.fresh)).map (·.probe.entry)
      = distinctOn Prod.snd seen ((p.settle walks s seen).map (·.probe.entry)) := by
  induction walks generalizing s seen with
  | zero => rfl
  | succ walks ih =>
    rw [settle_succ]
    split
    · next hseen =>
      rw [List.map_cons, distinctOn_cons, if_pos (show (p.probe s).entry.2 ∈ seen from hseen)]
      rfl
    · next hnew =>
      rw [List.map_cons, distinctOn_cons, if_neg (show (p.probe s).entry.2 ∉ seen from hnew)]
      exact congrArg ((p.probe s).entry :: ·) (ih _ _)

/-! ## The walks of the sweep -/

/-- The walks made at a checkpoint. -/
def hpRecord (p : Program) (hp : UInt32) (s : BattleState) (seen : List (List Action)) : HpRecord :=
  ⟨hp, p.settle maxHpWalks { s with hp } seen⟩

theorem sweepHpFrom_cons (p : Program) (hp : UInt32) (checkpoints : List UInt32) (s : BattleState)
    (seen : List (List Action)) :
    p.sweepHpFrom (hp :: checkpoints) s seen =
      p.hpRecord hp s seen ::
        p.sweepHpFrom checkpoints ((p.hpRecord hp s seen).final s)
          (seen ++ (p.hpRecord hp s seen).freshActions) := rfl

/-- Each record of the sweep is made at one of the checkpoints, in some state. -/
theorem exists_hpRecord_of_mem {r : HpRecord} (h : r ∈ p.sweepHpFrom checkpoints s seen) :
    ∃ t seen', r = p.hpRecord r.hp t seen' := by
  induction checkpoints generalizing s seen with
  | nil => cases h
  | cons hp checkpoints ih =>
    rw [sweepHpFrom_cons] at h
    rcases List.mem_cons.mp h with rfl | h
    · exact ⟨s, seen, rfl⟩
    · exact ih h

theorem map_hp_sweepHpFrom (p : Program) (checkpoints : List UInt32) (s : BattleState)
    (seen : List (List Action)) :
    (p.sweepHpFrom checkpoints s seen).map HpRecord.hp = checkpoints := by
  induction checkpoints generalizing s seen with
  | nil => rfl
  | cons hp checkpoints ih =>
    rw [sweepHpFrom_cons, List.map_cons, ih]
    rfl

/-- The state that the walks at a checkpoint leave has what a walk keeps. -/
theorem final_hpRecord_holds (hwalk : ∀ t, Holds t → Holds (p.trace t).final) {hp : UInt32}
    (hs : Holds { s with hp }) : Holds ((p.hpRecord hp s seen).final s) := by
  unfold HpRecord.final
  split
  · next hlast =>
    -- the first walk is always made
    have hnil : p.settle maxHpWalks { s with hp } seen = [] := List.getLast?_eq_none_iff.mp hlast
    obtain ⟨step, hstep, -⟩ := p.exists_settle_probe 31 { s with hp } seen
    rw [maxHpWalks] at hnil
    rw [hnil] at hstep
    cases hstep
  · next step hlast => exact (settle_holds hwalk hs (List.mem_of_getLast? hlast)).2

/-- **What walks and changes to the checkpoints keep holds at the start of every walk.** -/
theorem sweepHpFrom_holds (hwalk : ∀ t, Holds t → Holds (p.trace t).final)
    (hhp : ∀ hp ∈ checkpoints, ∀ t, Holds t → Holds { t with hp }) (hs : Holds s)
    {r : HpRecord} {q : Probe} (hr : r ∈ p.sweepHpFrom checkpoints s seen) (hq : q ∈ r.probes) :
    Holds q.start := by
  induction checkpoints generalizing s seen with
  | nil => cases hr
  | cons hp checkpoints ih =>
    obtain ⟨hfirst, hrest⟩ := List.forall_mem_cons.mp hhp
    have hs' : Holds { s with hp } := hfirst s hs
    rw [sweepHpFrom_cons] at hr
    rcases List.mem_cons.mp hr with rfl | hr
    · obtain ⟨step, hstep, rfl⟩ := List.mem_map.mp hq
      exact (settle_holds hwalk hs' hstep).1
    · exact ih hrest (final_hpRecord_holds hwalk hs') hr

/-- Each walk is made at the percentage of its checkpoint. -/
theorem sweepHpFrom_probes {r : HpRecord} {q : Probe}
    (h : r ∈ p.sweepHpFrom checkpoints s seen) (hq : q ∈ r.probes) :
    q = p.probe q.start ∧ q.start.hp = r.hp := by
  obtain ⟨t, seen', hr⟩ := exists_hpRecord_of_mem h
  rw [hr] at hq
  obtain ⟨step, hstep, rfl⟩ := List.mem_map.mp hq
  exact settle_probe hstep

/-- The sweep begins with a walk at its first checkpoint. -/
theorem probe_mem_sweepHp (p : Program) (hp : UInt32) (checkpoints : List UInt32)
    (s : BattleState) :
    p.probe { s with hp } ∈ (p.sweepHp (hp :: checkpoints) s).flatMap HpRecord.probes := by
  obtain ⟨step, hstep, hprobe⟩ := p.exists_settle_probe 31 { s with hp } []
  refine List.mem_flatMap.mpr ⟨_, List.mem_cons_self, ?_⟩
  rw [← hprobe]
  exact List.mem_map_of_mem hstep

/-! ## Fresh behaviours -/

theorem freshEntries_hpRecord (p : Program) (hp : UInt32) (s : BattleState)
    (seen : List (List Action)) :
    (p.hpRecord hp s seen).freshEntries
      = distinctOn Prod.snd seen ((p.hpRecord hp s seen).probes.map Probe.entry) := by
  have hentries : (p.hpRecord hp s seen).probes.map Probe.entry
      = (p.settle maxHpWalks { s with hp } seen).map (·.probe.entry) := List.map_map
  rw [hentries]
  exact p.map_entry_filter_settle maxHpWalks { s with hp } seen

/-- **What is fresh at all checkpoints are the first occurrences among what all walks show.** -/
theorem freshEntries_sweepHpFrom (p : Program) (checkpoints : List UInt32) (s : BattleState)
    (seen : List (List Action)) :
    (p.sweepHpFrom checkpoints s seen).flatMap HpRecord.freshEntries
      = distinctOn Prod.snd seen
          (((p.sweepHpFrom checkpoints s seen).flatMap HpRecord.probes).map Probe.entry) := by
  induction checkpoints generalizing s seen with
  | nil => rfl
  | cons hp checkpoints ih =>
    rw [sweepHpFrom_cons, List.flatMap_cons, List.flatMap_cons, List.map_append,
      distinctOn_append, ← freshEntries_hpRecord, HpRecord.map_snd_freshEntries, ih]

/-- **Every behaviour that a walk of the sweep shows is fresh at some checkpoint.** -/
theorem mem_freshActions_sweepHp_iff :
    (∃ r ∈ p.sweepHp checkpoints s, actions ∈ r.freshActions) ↔
      ∃ q ∈ (p.sweepHp checkpoints s).flatMap HpRecord.probes, q.actions = actions := by
  have hfresh : actions ∈ ((p.sweepHp checkpoints s).flatMap HpRecord.freshEntries).map Prod.snd ↔
      actions ∈ (((p.sweepHp checkpoints s).flatMap HpRecord.probes).map Probe.entry).map Prod.snd
        ∧ actions ∉ [] := by
    rw [sweepHp, freshEntries_sweepHpFrom]
    exact mem_map_distinctOn
  rw [List.map_flatMap, List.map_map] at hfresh
  simp only [HpRecord.map_snd_freshEntries, List.mem_flatMap, List.not_mem_nil,
    not_false_eq_true, and_true] at hfresh
  rw [hfresh, List.mem_map]
  exact Iff.rfl

end Program

end EnemyBehavior
