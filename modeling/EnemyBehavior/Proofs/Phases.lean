import EnemyBehavior.Proofs.HpSweep
import EnemyBehavior.Proofs.TurnSampling
import EnemyBehavior.Simulation

/-!
# What a simulation records

Every simulation succeeds: the sweep over turns starts at turn 1, and ten more turns can be
counted. All that is reported is read off walks: a group for a turn is an entry of the map of a
turn, and a group for HP is a fresh behaviour of the HP sweep. So the actions of each group are
those of a walk at the HP percentage of the group.

## Main statements

* `Program.simulate_eq_ok_iff`, `Program.exists_simulate` — the records of a simulation
* `Cycle.mem_groupsFrom` — the groups of successive turns, entry by entry
* `Cycle.exists_group_of_not_everywhere` — an entry that some turn lacks is in a group
* `Simulation.isWalk_of_mem_turns`, `Simulation.isWalk_of_mem_hpGroups` — groups are walks
-/

namespace EnemyBehavior

/-! ## Groups of a cycle -/

namespace Cycle

variable {c : Cycle} {turns : List TurnMap} {turn : TurnMap} {steady : HpEntry → Bool}
  {index : Nat} {g : TimedGroup} {e : HpEntry}

/-- **The groups of successive turns are their entries that are not steady.** -/
theorem mem_groupsFrom :
    g ∈ groupsFrom steady index turns ↔
      ∃ k turn, turns[k]? = some turn ∧
        g.turn = turnNumber (index + k) ∧ g.entry ∈ turn.entries ∧ steady g.entry = false := by
  induction turns generalizing index with
  | nil => simp [groupsFrom]
  | cons turn turns ih =>
    have hfirst : g ∈ groupsOfTurn steady turn index ↔
        g.turn = turnNumber index ∧ g.entry ∈ turn.entries ∧ steady g.entry = false := by
      unfold groupsOfTurn
      simp only [List.mem_map, List.mem_filter, Bool.not_eq_true']
      constructor
      · rintro ⟨e, ⟨he, hsteady⟩, rfl⟩
        exact ⟨rfl, he, hsteady⟩
      · rintro ⟨hturn, he, hsteady⟩
        refine ⟨g.entry, ⟨he, hsteady⟩, ?_⟩
        rw [← hturn]
        rfl
    rw [groupsFrom, List.mem_append, hfirst, ih]
    constructor
    · rintro (h | ⟨k, turn', hk, hturn, h⟩)
      · exact ⟨0, turn, rfl, h⟩
      · refine ⟨k + 1, turn', hk, ?_, h⟩
        rw [hturn, Nat.add_assoc, Nat.add_comm 1 k]
    · rintro ⟨k, turn', hk, hturn, h⟩
      cases k with
      | zero =>
        obtain rfl := Option.some.inj hk
        exact .inl ⟨hturn, h⟩
      | succ k =>
        refine .inr ⟨k, turn', hk, ?_, h⟩
        rw [hturn, Nat.add_assoc, Nat.add_comm 1 k]

theorem exists_turn_of_mem_groupsFrom (h : g ∈ groupsFrom steady index turns) :
    ∃ turn ∈ turns, g.entry ∈ turn.entries := by
  obtain ⟨k, turn, hk, -, he, -⟩ := mem_groupsFrom.mp h
  exact ⟨turn, List.mem_of_getElem? hk, he⟩

theorem mem_of_mem_body (h : turn ∈ c.body turns) : turn ∈ turns :=
  List.mem_of_mem_drop (List.mem_of_mem_take h)

/-- A group of a cycle is an entry of some turn. -/
theorem exists_turn_of_mem_groups (h : g ∈ c.groups turns) :
    ∃ turn ∈ turns, g.entry ∈ turn.entries := by
  rcases List.mem_append.mp h with h | h
  · unfold timedGroups at h
    split at h
    · obtain ⟨turn, hturn, he⟩ := exists_turn_of_mem_groupsFrom h
      exact ⟨turn, List.mem_of_mem_take hturn, he⟩
    · cases h
  · unfold repeatingGroups at h
    split at h
    · cases h
    · obtain ⟨turn, hturn, he⟩ := exists_turn_of_mem_groupsFrom h
      exact ⟨turn, mem_of_mem_body hturn, he⟩

theorem eq_of_mem_body_of_period (hperiod : c.period = 1) {turn' : TurnMap}
    (h : turn ∈ c.body turns) (h' : turn' ∈ c.body turns) : turn = turn' := by
  unfold body block at h h'
  rw [hperiod] at h h'
  cases hdrop : turns.drop c.start with
  | nil =>
    rw [hdrop] at h
    cases h
  | cons t ts =>
    rw [hdrop] at h h'
    exact (List.mem_singleton.mp h).trans (List.mem_singleton.mp h').symm

/-- **What a turn of the cycle does and another one does not is reported in a group.** -/
theorem exists_group_of_not_everywhere {turn' : TurnMap} (hturn : turn ∈ c.body turns)
    (he : e ∈ turn.entries) (hturn' : turn' ∈ c.body turns) (he' : e ∉ turn'.entries) :
    ∃ g ∈ c.groups turns, g.entry = e := by
  have hperiod : c.period ≠ 1 := by
    intro hperiod
    rw [eq_of_mem_body_of_period hperiod hturn hturn'] at he
    exact he' he
  obtain ⟨k, hk⟩ := List.getElem?_of_mem hturn
  have hsteady : (c.body turns).all (·.covers e) = false := by
    rw [List.all_eq_false]
    exact ⟨turn', hturn', fun hcovers => he' (TurnMap.covers_iff.mp hcovers)⟩
  refine ⟨⟨turnNumber (c.start + k), e.1, e.2⟩, List.mem_append_right _ ?_, rfl⟩
  rw [repeatingGroups, if_neg hperiod]
  exact mem_groupsFrom.mpr ⟨k, turn, hk, rfl, he, hsteady⟩

end Cycle

/-! ## Walks behind the records -/

namespace Program

variable {p : Program} {checkpoints : List UInt32} {s final : BattleState}
  {records : List TurnRecord} {e : HpEntry}

/-- The actions are those of some walk at the percentage. -/
def IsWalk (p : Program) (e : HpEntry) : Prop :=
  ∃ s : BattleState, s.hp = e.1 ∧ (p.trace s).actions = e.2

theorem isWalk_of_mem_entries (h : e ∈ (p.turnRecord checkpoints s).map.entries) :
    p.IsWalk e := by
  have hsample := TurnMap.mem_of_mem_ofSamples h
  rw [map_entry_turnRecord] at hsample
  obtain ⟨hp, -, rfl⟩ := List.mem_map.mp hsample
  exact ⟨{ s with hp }, rfl, rfl⟩

theorem IsSweep.isWalk (h : p.IsSweep checkpoints s records final) {turn : TurnMap}
    (hturn : turn ∈ records.map TurnRecord.map) (he : e ∈ turn.entries) : p.IsWalk e := by
  obtain ⟨r, hr, rfl⟩ := List.mem_map.mp hturn
  rw [h.eq_turnRecord r hr] at he
  exact isWalk_of_mem_entries he

theorem isWalk_of_mem_groups {r : HpRecord} {emitted : List HpEntry} {g : HpGroup}
    (hr : r ∈ p.sweepHp checkpoints s) (hg : g ∈ r.groups emitted) :
    p.IsWalk (g.ceiling, g.actions) := by
  obtain ⟨hceiling, hfresh, -⟩ := HpRecord.mem_groups.mp hg
  obtain ⟨q, hq, hactions⟩ := HpRecord.exists_probe_of_mem_freshActions hfresh
  obtain ⟨hprobe, hhp⟩ := sweepHpFrom_probes hr hq
  refine ⟨q.start, hhp.trans hceiling.symm, ?_⟩
  rw [← hactions, hprobe]
  rfl

/-! ## Simulations -/

/-- The records are those of the phases, one after another. -/
structure IsSimulation (p : Program) (level : UInt32) (m : Simulation) : Prop where
  program : m.program = p
  checkpoints : m.checkpoints = p.sampledHp
  opening : m.opening = p.withoutPassives.probe (.start level)
  turnCount : m.turns.length = sweepTurnCount
  turns : p.steady.IsSweep p.sampledHp (afterOpening (.start level) m.opening) m.turns m.settled
  counts : m.counts =
    if p.hasEnemyCountBranch then some (p.steady.sweepEnemyCounts m.settled) else none
  hp : m.hp = p.steady.sweepHp p.sampledHp m.settled
  level : m.level = level

variable {level : UInt32} {m : Simulation}

theorem simulate_eq_ok_iff : p.simulate level = .ok m ↔ p.IsSimulation level m := by
  unfold simulate simulateWith
  constructor
  · intro h
    obtain ⟨r, hturns, h⟩ := bind_eq_ok_iff.mp h
    cases h
    obtain ⟨hcount, hturns⟩ := sweepTurns_eq_ok_iff.mp hturns
    exact ⟨rfl, rfl, rfl, hcount, hturns, rfl, rfl, rfl⟩
  · rintro ⟨hprogram, hcheckpoints, hopening, hcount, hturns, hcounts, hhp, hlevel⟩
    rw [hopening] at hturns
    simp only [sweepTurns_eq_ok_iff.mpr ⟨hcount, hturns⟩]
    show Except.ok _ = Except.ok m
    rw [← hcounts, ← hhp, ← hopening, ← hcheckpoints]
    subst hprogram hlevel
    rfl

/-- The opening leaves the battle in its first turn. -/
theorem afterOpening_turn (p : Program) (level : UInt32) :
    (afterOpening (.start level) (p.probe (.start level))).turn = 1 := by
  unfold afterOpening
  split
  · exact (p.final_sameSituation (.start level)).turn
  · rfl

/-- **Every simulation succeeds.** -/
theorem exists_simulate (p : Program) (level : UInt32) : ∃ m, p.simulate level = .ok m := by
  have hsize : (afterOpening (.start level) (p.withoutPassives.probe (.start level))).turn.toNat
      + sweepTurnCount < UInt32.size := by
    rw [p.withoutPassives.afterOpening_turn level]
    decide
  obtain ⟨records, final, hsweep⟩ := p.steady.exists_sweepTurns p.sampledHp hsize
  unfold simulate simulateWith
  simp only [hsweep]
  exact ⟨_, rfl⟩

/-- Every summary is read off a simulation. -/
theorem exists_summarize (p : Program) (level : UInt32) :
    ∃ m, p.IsSimulation level m ∧ p.summarize level = .ok m.summary := by
  obtain ⟨m, hm⟩ := p.exists_simulate level
  refine ⟨m, simulate_eq_ok_iff.mp hm, ?_⟩
  rw [summarize, hm]
  rfl

theorem IsSimulation.length_turnMaps (h : p.IsSimulation level m) :
    m.turnMaps.length = sweepTurnCount := by
  rw [Simulation.turnMaps, List.length_map, h.turnCount]

theorem head?_sampledHp (p : Program) : p.sampledHp.head? = some fullHp :=
  p.withoutPassives.covers_hpCheckpoints.head?

end Program

/-! ## Groups of a simulation -/

namespace Simulation

variable {p : Program} {level : UInt32} {m : Simulation}

theorem timed_append_repeating (m : Simulation) :
    m.timedGroups ++ m.repeatingGroups = (m.cycle?.map (·.groups m.turnMaps)).getD [] := by
  unfold timedGroups repeatingGroups
  cases m.cycle? <;> rfl

theorem isWalk_of_mem_turnMaps (h : p.IsSimulation level m) {turn : TurnMap}
    (hturn : turn ∈ m.turnMaps) {e : HpEntry} (he : e ∈ turn.entries) : p.steady.IsWalk e :=
  h.turns.isWalk hturn he

/-- A group for a turn is an entry of some turn. -/
theorem exists_turn_of_mem_groups {g : TimedGroup} (hg : g ∈ m.timedGroups ++ m.repeatingGroups) :
    ∃ turn ∈ m.turnMaps, g.entry ∈ turn.entries := by
  rw [timed_append_repeating] at hg
  cases hc : m.cycle? with
  | none =>
    rw [hc] at hg
    cases hg
  | some c =>
    rw [hc] at hg
    exact Cycle.exists_turn_of_mem_groups hg

/-- **A group for a turn is a walk at its percentage.** -/
theorem isWalk_of_mem_turns (h : p.IsSimulation level m) {g : TimedGroup}
    (hg : g ∈ m.timedGroups ++ m.repeatingGroups) : p.steady.IsWalk g.entry := by
  obtain ⟨turn, hturn, he⟩ := exists_turn_of_mem_groups hg
  exact isWalk_of_mem_turnMaps h hturn he

/-- **A group for HP is a walk at its ceiling.** -/
theorem isWalk_of_mem_hpGroups (h : p.IsSimulation level m) {g : HpGroup}
    (hg : g ∈ m.hpGroups) : p.steady.IsWalk (g.ceiling, g.actions) := by
  obtain ⟨r, hr, hg⟩ := List.mem_flatMap.mp hg
  rw [h.hp] at hr
  exact Program.isWalk_of_mem_groups hr hg

end Simulation

end EnemyBehavior
