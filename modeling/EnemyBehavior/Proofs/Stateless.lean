import EnemyBehavior.Proofs.Periodic
import EnemyBehavior.Proofs.Phases
import EnemyBehavior.Proofs.View

/-!
# Programs that keep no state

A program without register nodes and one-time actions does the same on every turn. Countdown nodes
are allowed: they start a countdown, but the counter stays at zero, where a countdown lowers
nothing. So all walks of a simulation look the same to the enemy but for HP: the first turn is a
cycle of its own, no group for a turn is reported, and the HP sweep lists what the enemy does at
each HP percentage, each behaviour once.

## Main statements

* `Program.final_sameView` — a walk leaves a state that looks as before
* `Program.groups_sweepHpFrom` — the groups of the HP sweep are first occurrences
* `Cycle.find?_of_alike` — if all turns are alike, the first one is the cycle
* `Program.stateless_reports_all_hp` — what is reported of such a program
-/

namespace EnemyBehavior

variable {p : Program} {s t settled : BattleState} {checkpoints : List UInt32}
  {records : List TurnRecord} {seen : List (List Action)} {level : UInt32} {m : Simulation}

/-! ## Nodes and walks -/

/-- The node changes neither flags nor counter and uses up no one-time bits. -/
def Node.isStateless : Node → Bool
  | flagOperation .. | setCounter .. | setCounterIf .. => false
  | action a => a.oneTime?.isNone
  | _ => true

/-- No node of the program keeps state. -/
def Program.Stateless (p : Program) : Prop := ∀ node ∈ p.toList, node.isStateless = true

instance (p : Program) : Decidable p.Stateless :=
  inferInstanceAs (Decidable (∀ node ∈ p.toList, node.isStateless = true))

theorem Action.verdictOn_of_reusable {a : Action} (h : a.oneTime? = none) (s : BattleState) :
    (verdictOn a.condition s).2 = s := by
  unfold oneTime? at h
  cases hc : a.condition with
  | none => rfl
  | some c =>
    rw [hc, Option.bind_some] at h
    simp only [verdictOn, Condition.evaluate, h]
    split <;> rfl

theorem Node.after_sameView {node : Node} (h : node.isStateless = true) (s : BattleState) :
    (node.after s).SameView s := by
  cases node with
  | action a =>
    have hafter : (action a).after s = s :=
      Action.verdictOn_of_reusable (Option.isNone_iff_eq_none.mp h) s
    rw [hafter]
    exact .refl s
  | flagOperation | setCounter | setCounterIf => cases h
  | _ => exact ⟨rfl, rfl, rfl, rfl, rfl, rfl, rfl⟩

namespace Program

theorem Stateless.blank (hp : p.Stateless) (chosen : Node → Bool) : (p.blank chosen).Stateless :=
  forall_mem_blank rfl hp

theorem Stateless.steady (hp : p.Stateless) : p.steady.Stateless := forall_mem_steady rfl hp

/-- **A walk leaves a state that looks as before.** -/
theorem final_sameView (hp : p.Stateless) (s : BattleState) : (p.trace s).final.SameView s := by
  have hclear : s.clearMarks.SameView s := ⟨rfl, rfl, rfl, rfl, rfl, rfl, rfl⟩
  have hkeeps : ∀ node ∈ p.toList, ∀ t : BattleState, t.SameView s → (node.after t).SameView s :=
    fun node hnode t ht => (node.after_sameView (hp node hnode) t).trans ht
  exact (traceFrom_holds hkeeps maxSteps 1 [] s.clearMarks hclear).1

/-! ## Turns -/

/-- Every turn starts in a state that looks as the first, and so does what comes after them. -/
theorem IsSweep.sameView (h : p.IsSweep checkpoints s records settled) (hp : p.Stateless)
    (hhead : checkpoints.head? = some s.hp) (hcounter : s.counter = 0) :
    (∀ r ∈ records, r.start.SameView s) ∧ settled.SameView s := by
  have hstep : ∀ t next, t.SameView s → (p.turnRecord checkpoints t).carried.endTurn = .ok next →
      next.SameView s := by
    intro t next ht hnext
    have hcarried : (p.turnRecord checkpoints t).carried.SameView s := by
      rw [← ht.hp] at hhead
      rw [carried_of_head? hhead]
      exact (final_sameView hp t).trans ht
    -- a running countdown has nothing to lower
    have hstays : ¬ 0 < (p.turnRecord checkpoints t).carried.counter := by
      rw [hcarried.counter, hcounter]
      decide
    exact (BattleState.endTurn_sameView hstays hnext).trans hcarried
  exact h.invariant hstep (.refl s)

theorem map_turnRecord_of_sameView {q : Program} (hpq : p.Agree BattleState.SameView q)
    (h : s.SameView t) (checkpoints : List UInt32) :
    (p.turnRecord checkpoints s).map = (q.turnRecord checkpoints t).map := by
  unfold TurnRecord.map
  rw [map_entry_turnRecord, map_entry_turnRecord]
  simp only [actionsAt_eq_of_sameView hpq h]

/-! ## The HP sweep -/

/-- A behaviour that has been met is met again at once, and any other one on the second walk. -/
theorem freshActions_hpRecord (hp : p.Stateless) (percentage : UInt32) (s : BattleState)
    (seen : List (List Action)) :
    (p.hpRecord percentage s seen).freshActions =
      if p.actionsAt s percentage ∈ seen then [] else [p.actionsAt s percentage] := by
  have hview := final_sameView hp { s with hp := percentage }
  have hagain : (p.probe (p.probe { s with hp := percentage }).final).actions
      = p.actionsAt s percentage :=
    (trace_sameRoute p.agree_sameView hview.clearMarks).actions
  have hfirst : (p.probe { s with hp := percentage }).actions = p.actionsAt s percentage := rfl
  unfold hpRecord
  rw [maxHpWalks, settle_succ, hfirst]
  by_cases hmem : p.actionsAt s percentage ∈ seen
  · rw [if_pos hmem, if_pos hmem]
    rfl
  · rw [if_neg hmem, if_neg hmem, settle_succ, hagain, if_pos List.mem_cons_self]
    rfl

/-- The walks at a checkpoint leave a state that looks as before, but for HP. -/
theorem final_hpRecord_sameView (hp : p.Stateless) (percentage : UInt32) (s : BattleState)
    (seen : List (List Action)) :
    ((p.hpRecord percentage s seen).final s).SameView { s with hp := percentage } := by
  have hwalk : ∀ t, t.SameView { s with hp := percentage } →
      (p.trace t).final.SameView { s with hp := percentage } :=
    fun t ht => (final_sameView hp t).trans ht
  exact final_hpRecord_holds hwalk (.refl _)

/-- **The groups of the HP sweep are the first occurrences** of what the enemy does at the
checkpoints, if no group for a turn has been emitted. -/
theorem groups_sweepHpFrom (hp : p.Stateless) (h : s.SameView t) :
    (p.sweepHpFrom checkpoints s seen).flatMap (HpRecord.groups [])
      = (distinctOn Prod.snd seen (checkpoints.map fun h => (h, p.actionsAt t h))).map
          fun e => ⟨e.1, e.2⟩ := by
  induction checkpoints generalizing s t seen with
  | nil => rfl
  | cons percentage checkpoints ih =>
    have hactions : p.actionsAt s percentage = p.actionsAt t percentage :=
      actionsAt_eq_of_sameView p.agree_sameView h percentage
    have hnext : ((p.hpRecord percentage s seen).final s).SameView { t with hp := percentage } :=
      (final_hpRecord_sameView hp percentage s seen).trans (h.withHp percentage)
    -- what the enemy does from there on does not depend on the HP of `t`
    have hrest : ∀ met, (p.sweepHpFrom checkpoints ((p.hpRecord percentage s seen).final s)
          met).flatMap (HpRecord.groups [])
        = (distinctOn Prod.snd met (checkpoints.map fun h => (h, p.actionsAt t h))).map
            fun e => ⟨e.1, e.2⟩ := by
      intro met
      have hlower : (p.sweepHpFrom checkpoints _ met).flatMap _ = _ := ih hnext
      exact hlower
    rw [sweepHpFrom_cons, List.flatMap_cons, List.map_cons, distinctOn_cons, hrest,
      HpRecord.groups, freshActions_hpRecord hp, hactions]
    by_cases hmem : p.actionsAt t percentage ∈ seen
    · rw [if_pos hmem, if_pos hmem, List.append_nil]
      rfl
    · have hmet : ∀ actions, actions ∈ seen ++ [p.actionsAt t percentage] ↔
          actions ∈ p.actionsAt t percentage :: seen := by
        intro actions
        rw [List.mem_append, List.mem_singleton, List.mem_cons, or_comm]
      rw [if_neg hmem, if_neg hmem, distinctOn_congr hmet]
      rfl

end Program

/-! ## The cycle -/

namespace Cycle

variable {turns : List TurnMap} {turn : TurnMap}

/-- **If all turns are alike, the first one is the cycle.** -/
theorem find?_of_alike (hall : ∀ turn' ∈ turns, turn' = turn) (hlength : 2 ≤ turns.length) :
    find? turns = some ⟨0, 1⟩ := by
  have hperiodic : PeriodicFrom 0 1 turns := by
    intro k _ hk
    have hearlier : k < turns.length := by omega
    rw [List.getElem?_eq_getElem hearlier, List.getElem?_eq_getElem hk,
      hall _ (List.getElem_mem hearlier), hall _ (List.getElem_mem hk)]
  obtain ⟨⟨start, stop⟩, hfind, hmem, hleast⟩ :=
    exists_find?_of_periodicFrom hperiodic (Nat.le_refl 1) (by omega)
  obtain ⟨hlt, -⟩ := mem_candidates.mp hmem
  replace hlt : start < stop := hlt
  replace hleast : start < 0 ∨ start = 0 ∧ stop ≤ 0 + 1 := hleast
  obtain rfl : start = 0 := by omega
  obtain rfl : stop = 1 := by omega
  exact hfind

end Cycle

/-! ## Simulations -/

theorem afterOpening_sameView (hp : p.Stateless) (s : BattleState) :
    (afterOpening s (p.probe s)).SameView s := by
  unfold afterOpening
  split
  · have hclear : (p.trace s).final.clearMarks.SameView (p.trace s).final :=
      ⟨rfl, rfl, rfl, rfl, rfl, rfl, rfl⟩
    exact hclear.trans (Program.final_sameView hp s)
  · exact .refl s

namespace Program.IsSimulation

/-- All turns start in states that look like the start of the battle, and so do the later sweeps. -/
theorem sameView (h : p.IsSimulation level m) (hp : p.Stateless) :
    (∀ r ∈ m.turns, r.start.SameView (.start level)) ∧ m.settled.SameView (.start level) := by
  have hopening : (afterOpening (.start level) m.opening).SameView (.start level) := by
    rw [h.opening]
    exact afterOpening_sameView (hp.blank _) (.start level)
  have hhead : p.sampledHp.head? = some (afterOpening (.start level) m.opening).hp := by
    rw [hopening.hp]
    exact p.head?_sampledHp
  obtain ⟨hstarts, hsettled⟩ :=
    h.turns.sameView hp.steady hhead hopening.counter
  exact ⟨fun r hr => (hstarts r hr).trans hopening, hsettled.trans hopening⟩

/-- All turns are alike. -/
theorem turnMaps_eq (h : p.IsSimulation level m) (hp : p.Stateless) :
    ∀ turn ∈ m.turnMaps, turn = (p.withoutPassives.turnRecord p.sampledHp (.start level)).map := by
  intro turn hturn
  obtain ⟨r, hr, rfl⟩ := List.mem_map.mp hturn
  have hview := (h.sameView hp).1 r hr
  rw [h.turns.eq_turnRecord r hr]
  exact (map_turnRecord_of_sameView p.agree_steady hview.symm p.sampledHp).symm

/-- No group for a turn is reported. -/
theorem turn_groups_eq_nil (h : p.IsSimulation level m) (hp : p.Stateless) :
    m.timedGroups = [] ∧ m.repeatingGroups = [] ∧ m.emitted = [] := by
  have hlength : m.turnMaps.length = sweepTurnCount := by
    rw [Simulation.turnMaps, List.length_map, h.turnCount]
  have hcycle : m.cycle? = some ⟨0, 1⟩ :=
    Cycle.find?_of_alike (h.turnMaps_eq hp) (by rw [hlength]; decide)
  unfold Simulation.timedGroups Simulation.repeatingGroups Simulation.emitted
  rw [hcycle]
  exact ⟨rfl, rfl, rfl⟩

/-- **The HP groups are the entries of a turn from the start of the battle.** -/
theorem hpGroups_eq (h : p.IsSimulation level m) (hp : p.Stateless) :
    m.hpGroups = (p.withoutPassives.turnRecord p.sampledHp (.start level)).map.entries.map
      fun e => ⟨e.1, e.2⟩ := by
  have hsteady := hp.steady
  have hsettled := (h.sameView hp).2
  have hactions : ∀ percentage, p.steady.actionsAt (.start level) percentage
      = p.withoutPassives.actionsAt (.start level) percentage :=
    fun percentage => (actionsAt_eq_of_sameView p.agree_steady (.refl _) percentage).symm
  have hdescending : p.sampledHp.Pairwise fun a b => b < a :=
    p.withoutPassives.covers_hpCheckpoints.descending
  unfold Simulation.hpGroups
  rw [(h.turn_groups_eq_nil hp).2.2, h.hp, sweepHp,
    groups_sweepHpFrom hsteady hsettled, entries_turnRecord hdescending]
  simp only [hactions]

end Program.IsSimulation

/-- Cleaning up invents no groups for turns. -/
theorem Skillset.clean_turns_eq_nil {k : Skillset} (htimed : k.timed = [])
    (hrepeating : k.repeating = []) : k.clean.timed = [] ∧ k.clean.repeating = [] := by
  unfold clean
  split
  · exact ⟨rfl, rfl⟩
  · simp [htimed, hrepeating]

namespace Program

/-- **What is reported of a program that keeps no state.** There are no groups for turns, and the
HP groups are the table of what the enemy does at each HP percentage at the start of the battle:
each behaviour stands once, under the highest percentage that shows it, and they go down. -/
theorem stateless_reports_all_hp (p : Program) (hp : p.Stateless) (level : UInt32) :
    ∃ m, p.simulate level = .ok m ∧ m.skillset.timed = [] ∧ m.skillset.repeating = [] ∧
      m.draft.hp.Pairwise (fun g g' => g'.ceiling < g.ceiling) ∧
      (m.draft.hp.map HpGroup.actions).Nodup ∧
      (∀ h ≤ fullHp, p.withoutPassives.actionsAt (.start level) h
        ∈ m.draft.hp.map HpGroup.actions) ∧
      ∀ g, g ∈ m.draft.hp ↔
        IsGreatest {h | h ≤ fullHp ∧ p.withoutPassives.actionsAt (.start level) h = g.actions}
          g.ceiling := by
  obtain ⟨m, hm⟩ := p.exists_simulate level
  have hsim := simulate_eq_ok_iff.mp hm
  obtain ⟨htimed, hrepeating, -⟩ := hsim.turn_groups_eq_nil hp
  obtain ⟨hcleanTimed, hcleanRepeating⟩ :=
    Skillset.clean_turns_eq_nil (k := m.draft) htimed hrepeating
  have hcovers : p.withoutPassives.Covers p.sampledHp := p.withoutPassives.covers_hpCheckpoints
  have hhp : m.draft.hp = m.hpGroups := rfl
  have htable : ∀ g, g ∈ m.draft.hp ↔
      IsGreatest {h | h ≤ fullHp ∧ p.withoutPassives.actionsAt (.start level) h = g.actions}
        g.ceiling := by
    intro g
    rw [hhp, hsim.hpGroups_eq hp, List.mem_map, ← hcovers.mem_entries]
    constructor
    · rintro ⟨e, he, rfl⟩
      exact he
    · intro hg
      exact ⟨(g.ceiling, g.actions), hg, rfl⟩
  refine ⟨m, hm, hcleanTimed, hcleanRepeating, ?_, ?_, fun h hh => ?_, htable⟩
  · rw [hhp, hsim.hpGroups_eq hp, List.pairwise_map]
    exact (p.withoutPassives.turnRecord p.sampledHp (.start level)).map.descending
  · rw [hhp, hsim.hpGroups_eq hp, List.map_map, entries_turnRecord hcovers.descending]
    exact nodup_map_distinctOn Prod.snd [] _
  · obtain ⟨top, htop, -⟩ := hcovers.filter_entries (.start level) hh
    have hgroup := (htable ⟨top, p.withoutPassives.actionsAt (.start level) h⟩).mpr htop
    exact List.mem_map_of_mem hgroup

/-- The enemy dispels down to half HP, then counts down, and deals gravity below 30 percent. -/
def countDownBelowHalf : Program where
  nodes := #[
    .preemptive 5,
    .branchHp .less 50 4,
    .action (.mk 1 (.effect .dispel) none),
    .action (.mk 2 (.effect (.gravity 25)) (some ⟨100, 0, some 30, none⟩)),
    .countdown]
  staysWithin := by decide

/-- Counting down is reported under 49, the highest percentage at which the enemy does so. -/
theorem stateless_reports_all_hp_of_countDownBelowHalf :
    countDownBelowHalf.Stateless ∧
    ∃ m, countDownBelowHalf.simulate 7 = .ok m ∧
      m.skillset.timed = [] ∧ m.skillset.repeating = [] ∧ ⟨49, [.countdown 0]⟩ ∈ m.draft.hp := by
  have hstateless : countDownBelowHalf.Stateless := by decide
  obtain ⟨m, hm, htimed, hrepeating, -, -, -, htable⟩ :=
    stateless_reports_all_hp countDownBelowHalf hstateless 7
  refine ⟨hstateless, m, hm, htimed, hrepeating, (htable _).mpr ⟨⟨by decide, ?_⟩, ?_⟩⟩
  · decide +kernel
  · rintro h ⟨hle, hsame⟩
    have hhighest : hpPercentages.all (fun h =>
        countDownBelowHalf.withoutPassives.actionsAt (.start 7) h = [.countdown 0] → h ≤ 49)
          = true := by
      decide +kernel
    have hcase := List.all_eq_true.mp hhighest h (mem_hpPercentages.mpr hle)
    exact of_decide_eq_true hcase hsame

end Program

end EnemyBehavior
