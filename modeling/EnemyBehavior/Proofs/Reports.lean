import EnemyBehavior.Proofs.WalkBounds

/-!
# What a walk may report

A walk goes on from every node that it executes, except perhaps from the last one. It goes on from
an action that has fired only if the action is optional: its condition uses up no bits and leaves
its firing to chance. So a walk reports optional actions of different nodes in the order visited,
then at most one action that ends the turn, that of its last node or a countdown. The plain attack
stands for nothing else, and no action at all is reported only of a walk that was cut short or came
to the end of a path.

## Main statements

* `Program.visits_goOn` — a walk goes on from all visits but one with which it stops
* `Program.emitted_eq_firings` — what fires at a walk, read off its action nodes
* `Program.isOptional_of_mem_dropLast` — all actions of a walk but the last are optional
* `Program.walk_reports` — what a walk may report
-/

namespace EnemyBehavior

variable {p : Program} {s : BattleState} {v : Visit} {node : Node} {a : Action}

/-! ## Nodes a walk goes on from -/

/-- The walk ends here. -/
def Flow.endsWalk : Flow → Bool
  | emitAndStop _ | stop => true
  | next | jump _ | emit _ => false

theorem Flow.successor?_eq_none_iff {position : Nat} {f : Flow} :
    f.successor? position = none ↔ f.endsWalk = true := by
  cases f <;> simp [successor?, endsWalk]

/-- The action has a condition, which uses up no bits and leaves the firing to chance. -/
def Action.IsOptional (a : Action) : Prop :=
  ∃ c, a.condition = some c ∧ c.oneTime = none ∧ c.triggerChance < 100

/-- **Only optional actions fire without using up the turn.** -/
theorem Action.isOptional_of_fire (h : (verdictOn a.condition s).1 = .fire) : a.IsOptional := by
  cases hc : a.condition with
  | none =>
    rw [hc] at h
    cases h
  | some c =>
    refine ⟨c, hc, ?_⟩
    rw [hc] at h
    simp only [verdictOn, Condition.evaluate] at h
    split at h
    · cases hmask : c.oneTime with
      | some mask =>
        rw [hmask] at h
        dsimp only at h
        split at h <;> cases h
      | none =>
        rw [hmask] at h
        dsimp only at h
        split at h
        · cases h
        · next hchance => exact ⟨rfl, UInt32.not_le.mp hchance⟩
    · cases h

theorem Node.eq_of_emit (h : node.flow s = .emit a) : node = .action a ∧ a.IsOptional := by
  have hemitted : (node.flow s).emitted? = some a := by rw [h]; rfl
  rcases Node.eq_of_emitted? hemitted with ⟨rfl, -⟩ | ⟨rfl, -⟩
  · refine ⟨rfl, Action.isOptional_of_fire (s := s) ?_⟩
    simp only [flow] at h
    cases hverdict : (verdictOn a.condition s).1 with
    | fire => rfl
    | skip | fireAndStop =>
      rw [hverdict] at h
      cases h
  · simp only [flow] at h
    split at h <;> cases h

/-- Only the end of a path stops a walk without a report. -/
theorem Node.eq_endPath_of_stop (h : node.flow s = .stop) : node = .endPath := by
  have hbranch : ∀ {taken : Bool} {target : UInt64}, Handler.branch taken target ≠ .stop := by
    intro taken target
    cases taken <;> exact nofun
  cases node with
  | endPath => rfl
  | branchFlag | branchHp | branchLevel | branchCounter | branchCard | branchRemainingEnemies =>
    exact absurd h hbranch
  | action a =>
    simp only [flow] at h
    cases hverdict : (verdictOn a.condition s).1 <;> rw [hverdict] at h <;> cases h
  | countdown =>
    simp only [flow] at h
    split at h <;> cases h
  | _ => cases h

/-! ## Firings -/

/-- The position and the action of an action node that fired. -/
def Visit.firing? (v : Visit) : Option (Nat × Action) :=
  v.flow.emitted?.bind fun a => if v.node = .action a then some (v.position, a) else none

/-- The action nodes that fired, in the order visited. -/
def Trace.firings (t : Trace) : List (Nat × Action) := t.visits.filterMap Visit.firing?

theorem Visit.firing?_eq_some_iff {f : Nat × Action} :
    v.firing? = some f ↔
      v.position = f.1 ∧ v.node = .action f.2 ∧ v.flow.emitted? = some f.2 := by
  obtain ⟨i, a⟩ := f
  simp only [firing?, Option.bind_eq_some_iff, Option.ite_none_right_eq_some, Option.some.injEq,
    Prod.mk.injEq]
  constructor
  · rintro ⟨_, hemitted, hnode, hi, rfl⟩
    exact ⟨hi, hnode, hemitted⟩
  · rintro ⟨hi, hnode, hemitted⟩
    exact ⟨a, hemitted, hnode, hi, rfl⟩

theorem Trace.firings_sublist (t : Trace) : (t.firings.map Prod.fst).Sublist t.positions := by
  unfold firings positions
  induction t.visits with
  | nil => exact .slnil
  | cons v visits ih =>
    cases hv : v.firing? with
    | none =>
      rw [List.filterMap_cons_none hv]
      exact ih.cons _
    | some f =>
      rw [List.filterMap_cons_some hv, List.map_cons, List.map_cons,
        (Visit.firing?_eq_some_iff.mp hv).1]
      exact ih.cons_cons _

namespace Program

theorem node?_of_mem_firings {f : Nat × Action} (h : f ∈ (p.trace s).firings) :
    p.node? f.1 = some (.action f.2) := by
  obtain ⟨v, hv, hfiring⟩ := List.mem_filterMap.mp h
  obtain ⟨hposition, hnode, -⟩ := Visit.firing?_eq_some_iff.mp hfiring
  rw [← hposition, ← hnode]
  exact (trace_isStep hv).node

/-- An action node that fires and goes on has an optional action. -/
theorem IsStep.isOptional (h : p.IsStep v) (hgoesOn : v.flow.endsWalk = false)
    (ha : v.flow.emitted? = some a) : v.node = .action a ∧ a.IsOptional := by
  cases hflow : v.flow with
  | emit b =>
    rw [hflow] at ha
    cases ha
    exact Node.eq_of_emit (h.flow.symm.trans hflow)
  | next | jump | emitAndStop | stop =>
    rw [hflow] at hgoesOn ha
    cases ha <;> cases hgoesOn

/-- Nodes from which a walk goes on report nothing but their own actions. -/
theorem IsStep.emitted?_eq (h : p.IsStep v) (hgoesOn : v.flow.endsWalk = false) :
    v.flow.emitted? = v.firing?.map Prod.snd := by
  cases ha : v.flow.emitted? with
  | none => simp [Visit.firing?, ha]
  | some a => simp [Visit.firing?, ha, (h.isOptional hgoesOn ha).1]

/-- A node reports its own action, a countdown, or nothing. -/
theorem IsStep.emitted?_cases (h : p.IsStep v) :
    v.flow.emitted? = v.firing?.map Prod.snd ∨
      v.firing? = none ∧ ∃ n, v.flow.emitted? = some (.countdown n) := by
  cases ha : v.flow.emitted? with
  | none => exact .inl (by simp [Visit.firing?, ha])
  | some a =>
    have hemitted := ha
    rw [h.flow] at hemitted
    rcases Node.eq_of_emitted? hemitted with ⟨hnode, -⟩ | ⟨hnode, rfl⟩
    · exact .inl (by simp [Visit.firing?, ha, hnode])
    · exact .inr ⟨by simp [Visit.firing?, ha, hnode], _, rfl⟩

end Program

/-! ## The visits of a walk -/

/-- The walk goes on from the visits `before`; the visit `last`, if there is one, ends it. -/
structure Trace.GoesOn (t : Trace) (before : List Visit) (last : Option Visit) : Prop where
  visits : t.visits = before ++ last.toList
  goesOn : ∀ v ∈ before, v.flow.endsWalk = false
  endsWalk : ∀ v ∈ last, v.flow.endsWalk = true
  stopped : t.ending = .stopped → last.isSome = true

theorem Trace.GoesOn.ended {e : Ending} (he : e ≠ .stopped) : (Trace.ended e s).GoesOn [] none where
  visits := rfl
  goesOn := by simp
  endsWalk := by simp
  stopped := fun h => absurd h he

namespace Program

theorem traceFrom_goesOn (p : Program) (budget position : Nat) (visited : List Nat)
    (s : BattleState) :
    ∃ before last, (p.traceFrom budget position visited s).GoesOn before last := by
  induction budget, position, visited, s using traceFrom_induction (p := p) with
  | ranOff | revisited | cutShort => exact ⟨[], none, .ended nofun⟩
  | stopped budget position visited s node hn hv hf =>
    refine ⟨[], some ⟨position, node, s, node.flow s, node.after s⟩, rfl, by simp, ?_, by simp⟩
    rintro v ⟨⟩
    exact Flow.successor?_eq_none_iff.mp hf
  | step budget position visited s node next t hn hv hf ih =>
    obtain ⟨before, last, h⟩ := ih
    refine ⟨_ :: before, last, congrArg (_ :: ·) h.visits, ?_, h.endsWalk, h.stopped⟩
    refine List.forall_mem_cons.mpr ⟨?_, h.goesOn⟩
    rw [← Bool.not_eq_true, ← Flow.successor?_eq_none_iff, hf]
    exact nofun

/-- **A walk goes on from all its visits** but for the one with which it stops. -/
theorem visits_goOn (p : Program) (s : BattleState) :
    ∃ before last, (p.trace s).GoesOn before last := p.traceFrom_goesOn maxSteps 1 [] s.clearMarks

/-! ## What fires -/

/-- **What fires at a walk, read off its action nodes.** -/
theorem emitted_eq_firings (p : Program) (s : BattleState) :
    (p.trace s).emitted = (p.trace s).firings.map Prod.snd ∨
      ∃ n, (p.trace s).emitted = (p.trace s).firings.map Prod.snd ++ [.countdown n] := by
  obtain ⟨before, last, h⟩ := p.visits_goOn s
  have hstep : ∀ v ∈ before ++ last.toList, p.IsStep v := fun v hv =>
    trace_isStep (h.visits ▸ hv)
  have hbefore : before.filterMap (·.flow.emitted?)
      = (before.filterMap Visit.firing?).map Prod.snd := by
    rw [List.map_filterMap]
    refine List.filterMap_congr fun v hv => ?_
    exact (hstep v (List.mem_append_left _ hv)).emitted?_eq (h.goesOn v hv)
  unfold Trace.emitted Trace.firings
  rw [h.visits, List.filterMap_append, List.filterMap_append, List.map_append, hbefore]
  cases last with
  | none => exact .inl rfl
  | some v =>
    -- the visit that ends the walk may be at a countdown, which is no action node
    rcases (hstep v (by simp)).emitted?_cases with hv | ⟨hnone, n, hv⟩
    · left
      cases hf : v.firing? <;> simp [hv, hf]
    · right
      exact ⟨n, by simp [hv, hnone]⟩

theorem firings_eq_nil (h : (p.trace s).emitted = []) : (p.trace s).firings = [] := by
  rcases p.emitted_eq_firings s with hown | ⟨n, hcountdown⟩
  · rw [h] at hown
    exact List.map_eq_nil_iff.mp hown.symm
  · rw [h] at hcountdown
    simp at hcountdown

/-- All that fires but the last is optional. -/
theorem isOptional_of_mem_dropLast (h : a ∈ (p.trace s).emitted.dropLast) : a.IsOptional := by
  obtain ⟨before, last, hgoesOn⟩ := p.visits_goOn s
  -- at most the last action is that of the visit that ends the walk
  have hmem : a ∈ before.filterMap (·.flow.emitted?) := by
    unfold Trace.emitted at h
    rw [hgoesOn.visits, List.filterMap_append] at h
    cases last with
    | none => exact List.dropLast_subset _ (by simpa using h)
    | some v =>
      cases hv : v.flow.emitted? with
      | none => exact List.dropLast_subset _ (by simpa [hv] using h)
      | some b => simpa [hv] using h
  obtain ⟨v, hv, ha⟩ := List.mem_filterMap.mp hmem
  have hstep : p.IsStep v := by
    refine trace_isStep (s := s) ?_
    rw [hgoesOn.visits]
    exact List.mem_append_left _ hv
  exact (hstep.isOptional (hgoesOn.goesOn v hv) ha).2

end Program

/-- The actions of the turn are what fired, or the plain attack if nothing did and the walk was
neither stopped nor cut short. -/
theorem Trace.actions_cases (t : Trace) :
    t.actions = t.emitted ∨
      t.emitted = [] ∧ t.actions = [.defaultAttack] ∧
        ∃ i, t.ending = .ranOff i ∨ t.ending = .revisited i := by
  unfold actions
  split
  · next i hending hemitted => exact .inr ⟨hemitted, rfl, i, .inl hending⟩
  · next i hending hemitted => exact .inr ⟨hemitted, rfl, i, .inr hending⟩
  · exact .inl rfl

namespace Program

/-- **A walk without a report** was cut short or came to the end of a path. -/
theorem endPath_of_actions_eq_nil (h : (p.trace s).actions = []) :
    (p.trace s).hitStepCap = true ∨
      (p.trace s).visits.getLast?.map Visit.node = some .endPath := by
  have hfault := (p.trace_bounded s).fault?
  have hemitted : (p.trace s).emitted = [] := by
    rcases (p.trace s).actions_cases with heq | ⟨hemitted, -⟩
    · rw [← heq, h]
    · exact hemitted
  cases hending : (p.trace s).ending with
  | cutShort i => exact .inl (by simp [Trace.hitStepCap, hending])
  | faulted => simp [Trace.fault?, hending] at hfault
  | ranOff | revisited => simp [Trace.actions, hending, hemitted] at h
  | stopped =>
    -- the visit that stopped the walk reported nothing, which only the end of a path does
    obtain ⟨before, last, hgoesOn⟩ := p.visits_goOn s
    obtain ⟨v, rfl⟩ := Option.isSome_iff_exists.mp (hgoesOn.stopped hending)
    have hv : v ∈ (p.trace s).visits := by simp [hgoesOn.visits]
    have hstep := trace_isStep hv
    have hsilent : v.flow.emitted? = none := List.filterMap_eq_nil_iff.mp hemitted v hv
    have hstop : v.flow = .stop := by
      have hends := hgoesOn.endsWalk v rfl
      cases hflow : v.flow with
      | stop => rfl
      | _ =>
        rw [hflow] at hends hsilent
        cases hsilent <;> cases hends
    have hnode : v.node = .endPath := Node.eq_endPath_of_stop (hstep.flow.symm.trans hstop)
    exact .inr (by simp [hgoesOn.visits, hnode])

/-- **What a walk may report**: the actions of the action nodes that fired, which are different nodes
in the order visited, perhaps with a countdown behind them; or, if nothing fired, the plain attack
alone. All but the last are optional, their HP gates are open, and nothing is reported only if the
walk was cut short or came to the end of a path. -/
theorem walk_reports (p : Program) (s : BattleState) :
    (((p.trace s).firings.map Prod.fst).Sublist (p.trace s).positions ∧
      ((p.trace s).firings.map Prod.fst).Nodup ∧
      (∀ f ∈ (p.trace s).firings, p.node? f.1 = some (.action f.2)) ∧
      ((p.walk s).1.actions = (p.trace s).firings.map Prod.snd ∨
        (∃ n, (p.walk s).1.actions = (p.trace s).firings.map Prod.snd ++ [.countdown n]) ∨
        (p.trace s).firings = [] ∧ (p.trace s).emitted = [] ∧
          (p.walk s).1.actions = [.defaultAttack] ∧
          ∃ i, (p.trace s).ending = .ranOff i ∨ (p.trace s).ending = .revisited i)) ∧
      (∀ a ∈ (p.walk s).1.actions.dropLast,
        ∃ c, a.condition = some c ∧ c.oneTime = none ∧ c.triggerChance < 100) ∧
      (∀ a ∈ (p.walk s).1.actions, ∀ t, a.hpThreshold? = some t → s.hp < t) ∧
      ((p.walk s).1.actions = [] →
        (p.walk s).1.hitStepCap = true ∨
          (p.trace s).visits.getLast?.map Visit.node = some .endPath) := by
  have hwalk : (p.walk s).1.actions = (p.trace s).actions := rfl
  rw [hwalk]
  have hsublist := (p.trace s).firings_sublist
  have hnodup := (p.trace_bounded s).nodup.sublist hsublist
  refine ⟨⟨hsublist, hnodup, fun f => node?_of_mem_firings, ?_⟩, ?_,
    fun a ha => trace_actions_openAt ha, endPath_of_actions_eq_nil⟩
  · rcases (p.trace s).actions_cases with heq | ⟨hnone, hactions, hending⟩
    · rw [heq]
      rcases p.emitted_eq_firings s with hown | hcountdown
      · exact .inl hown
      · exact .inr (.inl hcountdown)
    · exact .inr (.inr ⟨firings_eq_nil hnone, hnone, hactions, hending⟩)
  · intro a ha
    rcases (p.trace s).actions_cases with heq | ⟨-, hactions, -⟩
    · rw [heq] at ha
      exact isOptional_of_mem_dropLast ha
    · rw [hactions] at ha
      cases ha

end Program

end EnemyBehavior
