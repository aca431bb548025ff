import EnemyBehavior.Proofs.Step
import EnemyBehavior.Walk

/-!
# Whole walks

What holds of a walk because each of its nodes keeps it. There are two patterns.

* **One walk.** `traceFrom_induction` has one case for each way in which a walk goes on or ends.
* **Two walks in step.** When a relation between states is kept by the nodes of two programs at
  each position, and related states give the same flow, the walks from related states take the
  same route and leave related states (`trace_sameRoute`).

## Main statements

* `Program.trace_sameRoute`, `Program.walk_eq_of_agree` — walks in step
* `Program.traceFrom_holds` — what every node keeps, a walk keeps
* `Program.final_sameSituation` — a walk leaves the situation alone
* `Program.trace_actions_openAt` — all actions of a walk have open HP gates
-/

namespace EnemyBehavior

variable {p q : Program} {budget position : Nat} {visited : List Nat} {s t : BattleState}

/-! ## Unfolding a walk -/

@[simp] theorem Trace.visits_ended (e : Ending) : (Trace.ended e s).visits = [] := rfl

@[simp] theorem Trace.final_ended (e : Ending) : (Trace.ended e s).final = s := rfl

@[simp] theorem Trace.visits_cons (v : Visit) (t : Trace) :
    (Trace.cons v t).visits = v :: t.visits := rfl

@[simp] theorem Trace.final_cons (v : Visit) (t : Trace) : (Trace.cons v t).final = t.final := rfl

namespace Program

/-- The walk after a node at a position with this flow. -/
def continueFrom (p : Program) (budget position : Nat) (visited : List Nat) (flow : Flow)
    (s : BattleState) : Trace :=
  match flow.successor? position with
  | none => .ended .stopped s
  | some next => p.traceFrom budget next (position :: visited) s

theorem traceFrom_of_none (h : p.node? position = none) :
    p.traceFrom budget position visited s = .ended (.ranOff position) s := by
  unfold traceFrom
  rw [h]

theorem traceFrom_of_visited {node : Node} (h : p.node? position = some node)
    (hv : position ∈ visited) :
    p.traceFrom budget position visited s = .ended (.revisited position) s := by
  unfold traceFrom
  rw [h]
  simp [hv]

theorem traceFrom_zero {node : Node} (h : p.node? position = some node)
    (hv : position ∉ visited) :
    p.traceFrom 0 position visited s = .ended (.cutShort position) s := by
  unfold traceFrom
  rw [h]
  simp [hv]

theorem traceFrom_succ {node : Node} (h : p.node? position = some node)
    (hv : position ∉ visited) :
    p.traceFrom (budget + 1) position visited s
      = .cons ⟨position, node, s, node.flow s, node.after s⟩
          (p.continueFrom budget position visited (node.flow s) (node.after s)) := by
  rw [traceFrom, h]
  simp only [List.contains_iff_mem, hv, if_false, node.execute_eq]
  rfl

/-- The five ways in which a walk ends or goes on. -/
@[elab_as_elim]
theorem traceFrom_induction
    {motive : Nat → Nat → List Nat → BattleState → Trace → Prop}
    (ranOff : ∀ budget position visited s, p.node? position = none →
      motive budget position visited s (.ended (.ranOff position) s))
    (revisited : ∀ budget position visited s, position ∈ visited →
      motive budget position visited s (.ended (.revisited position) s))
    (cutShort : ∀ position visited s node, p.node? position = some node → position ∉ visited →
      motive 0 position visited s (.ended (.cutShort position) s))
    (stopped : ∀ budget position visited s node, p.node? position = some node →
      position ∉ visited → (node.flow s).successor? position = none →
      motive (budget + 1) position visited s
        (.cons ⟨position, node, s, node.flow s, node.after s⟩ (.ended .stopped (node.after s))))
    (step : ∀ budget position visited s node next t, p.node? position = some node →
      position ∉ visited → (node.flow s).successor? position = some next →
      motive budget next (position :: visited) (node.after s) t →
      motive (budget + 1) position visited s
        (.cons ⟨position, node, s, node.flow s, node.after s⟩ t))
    (budget position : Nat) (visited : List Nat) (s : BattleState) :
    motive budget position visited s (p.traceFrom budget position visited s) := by
  induction budget generalizing position visited s with
  | zero =>
    cases hn : p.node? position with
    | none =>
      rw [traceFrom_of_none hn]
      exact ranOff _ _ _ _ hn
    | some node =>
      by_cases hv : position ∈ visited
      · rw [traceFrom_of_visited hn hv]
        exact revisited _ _ _ _ hv
      · rw [traceFrom_zero hn hv]
        exact cutShort _ _ _ _ hn hv
  | succ budget ih =>
    cases hn : p.node? position with
    | none =>
      rw [traceFrom_of_none hn]
      exact ranOff _ _ _ _ hn
    | some node =>
      by_cases hv : position ∈ visited
      · rw [traceFrom_of_visited hn hv]
        exact revisited _ _ _ _ hv
      · rw [traceFrom_succ hn hv, continueFrom]
        split
        · next hf => exact stopped _ _ _ _ _ hn hv hf
        · next next hf => exact step _ _ _ _ _ _ _ hn hv hf (ih _ _ _)

end Program

/-! ## Walks in step -/

/-- Related states see the same flow and stay related. -/
def Node.Agree (R : BattleState → BattleState → Prop) (n m : Node) : Prop :=
  ∀ s t, R s t → n.flow s = m.flow t ∧ R (n.after s) (m.after t)

/-- The nodes of both programs agree position by position. -/
def Program.Agree (R : BattleState → BattleState → Prop) (p q : Program) : Prop :=
  ∀ position, Option.Rel (Node.Agree R) (p.node? position) (q.node? position)

theorem Node.agree_noOp (R : BattleState → BattleState → Prop) : Node.Agree R .noOp .noOp :=
  fun _ _ h => ⟨rfl, h⟩

theorem Program.node?_eq_some {node : Node} (h : p.node? position = some node) :
    node = .noOp ∨ node ∈ p.toList := by
  cases position with
  | zero =>
    cases h
    exact .inl rfl
  | succ index => exact .inr (Array.mem_toList_iff.mpr (Array.mem_of_getElem? h))

/-- What holds of all nodes, and of one that does nothing, holds of the node at a position. -/
theorem Program.forall_node? {P : Node → Prop} {node : Node} (hnoOp : P .noOp)
    (h : ∀ node ∈ p.toList, P node) (hnode : p.node? position = some node) : P node := by
  rcases node?_eq_some hnode with rfl | hmem
  · exact hnoOp
  · exact h node hmem

/-- A program agrees with itself if each of its nodes does. -/
theorem Program.agree_self {R : BattleState → BattleState → Prop}
    (h : ∀ node ∈ p.toList, Node.Agree R node node) : p.Agree R p := by
  intro position
  cases hn : p.node? position with
  | none => exact .none
  | some node =>
    exact .some (forall_node? (P := fun node => Node.Agree R node node) (Node.agree_noOp R) h hn)

namespace Trace

/-- The positions passed, with what each node did. -/
def route (t : Trace) : List (Nat × Flow) := t.visits.map fun v => (v.position, v.flow)

/-- The traces differ at most in the states they record. -/
structure SameRoute (R : BattleState → BattleState → Prop) (t u : Trace) : Prop where
  route : t.route = u.route
  ending : t.ending = u.ending
  final : R t.final u.final

theorem emitted_eq_route (t : Trace) : t.emitted = t.route.filterMap (·.2.emitted?) := by
  unfold emitted route
  rw [List.filterMap_map]
  rfl

theorem length_route (t : Trace) : t.route.length = t.visits.length := List.length_map _

/-- **All that is told of a walk is read off its route and its ending.** -/
theorem SameRoute.walk {R : BattleState → BattleState → Prop} {t u : Trace}
    (h : SameRoute R t u) : t.walk = u.walk := by
  have hemitted : t.emitted = u.emitted := by rw [emitted_eq_route, emitted_eq_route, h.route]
  have hlength : t.visits.length = u.visits.length := by
    rw [← length_route, ← length_route, h.route]
  simp only [Trace.walk, actions, steps, hitStepCap, fault?, h.ending, hemitted, hlength]

theorem SameRoute.actions {R : BattleState → BattleState → Prop} {t u : Trace}
    (h : SameRoute R t u) : t.actions = u.actions := congrArg Walk.actions h.walk

end Trace

namespace Program

variable {R : BattleState → BattleState → Prop}

/-- At each position there is no node in either program, or there are two that agree. -/
theorem Agree.cases (hpq : p.Agree R q) (position : Nat) :
    (p.node? position = none ∧ q.node? position = none) ∨
      ∃ n m, p.node? position = some n ∧ q.node? position = some m ∧ Node.Agree R n m := by
  have hrel := hpq position
  generalize p.node? position = n? at hrel ⊢
  generalize q.node? position = m? at hrel ⊢
  cases hrel with
  | none => exact .inl ⟨rfl, rfl⟩
  | some hnm => exact .inr ⟨_, _, rfl, rfl, hnm⟩

theorem traceFrom_sameRoute (hpq : p.Agree R q) (h : R s t) :
    Trace.SameRoute R (p.traceFrom budget position visited s)
      (q.traceFrom budget position visited t) := by
  induction budget generalizing position visited s t with
  | zero =>
    rcases hpq.cases position with ⟨hp, hq⟩ | ⟨n, m, hp, hq, hnm⟩
    · rw [traceFrom_of_none hp, traceFrom_of_none hq]
      exact ⟨rfl, rfl, h⟩
    · by_cases hv : position ∈ visited
      · rw [traceFrom_of_visited hp hv, traceFrom_of_visited hq hv]
        exact ⟨rfl, rfl, h⟩
      · rw [traceFrom_zero hp hv, traceFrom_zero hq hv]
        exact ⟨rfl, rfl, h⟩
  | succ budget ih =>
    rcases hpq.cases position with ⟨hp, hq⟩ | ⟨n, m, hp, hq, hnm⟩
    · rw [traceFrom_of_none hp, traceFrom_of_none hq]
      exact ⟨rfl, rfl, h⟩
    · by_cases hv : position ∈ visited
      · rw [traceFrom_of_visited hp hv, traceFrom_of_visited hq hv]
        exact ⟨rfl, rfl, h⟩
      · obtain ⟨hflow, hafter⟩ := hnm s t h
        rw [traceFrom_succ hp hv, traceFrom_succ hq hv, ← hflow]
        -- both walks go on from the same position, or both end here
        unfold continueFrom
        cases (n.flow s).successor? position with
        | none => exact ⟨rfl, rfl, hafter⟩
        | some next =>
          have hrest : Trace.SameRoute R
              (p.traceFrom budget next (position :: visited) (n.after s))
              (q.traceFrom budget next (position :: visited) (m.after t)) := ih hafter
          exact ⟨congrArg (_ :: ·) hrest.route, hrest.ending, hrest.final⟩

/-- **Walks of programs that agree, from related states, take the same route.** -/
theorem trace_sameRoute (hpq : p.Agree R q) (h : R s.clearMarks t.clearMarks) :
    Trace.SameRoute R (p.trace s) (q.trace t) := traceFrom_sameRoute hpq h

theorem walk_eq_of_agree (hpq : p.Agree R q) (h : R s.clearMarks t.clearMarks) :
    (p.walk s).1 = (q.walk t).1 ∧ R (p.walk s).2 (q.walk t).2 :=
  have hroute := trace_sameRoute hpq h
  ⟨hroute.walk, hroute.final⟩

end Program

/-! ## What the nodes keep -/

namespace Program

variable {Holds : BattleState → Prop}

/-- **What every node keeps, a walk keeps**: it holds before each of its nodes and at its end. -/
theorem traceFrom_holds (hkeeps : ∀ node ∈ p.toList, ∀ s, Holds s → Holds (node.after s))
    (budget position : Nat) (visited : List Nat) (s : BattleState) (hs : Holds s) :
    Holds (p.traceFrom budget position visited s).final ∧
      ∀ v ∈ (p.traceFrom budget position visited s).visits, Holds v.before := by
  have hnode : ∀ position node, p.node? position = some node → ∀ s, Holds s →
      Holds (node.after s) := fun _ _ hn => forall_node? (fun _ hs => hs) hkeeps hn
  induction budget, position, visited, s using traceFrom_induction (p := p) with
  | ranOff | revisited | cutShort => simp [hs]
  | stopped budget position visited s node hn hv hf => simp [hs, hnode position node hn s hs]
  | step budget position visited s node next t hn hv hf ih =>
    obtain ⟨hfinal, hvisits⟩ := ih (hnode position node hn s hs)
    exact ⟨hfinal, List.forall_mem_cons.mpr ⟨hs, hvisits⟩⟩

theorem continueFrom_final_holds (hkeeps : ∀ node ∈ p.toList, ∀ s, Holds s → Holds (node.after s))
    (budget position : Nat) (visited : List Nat) (flow : Flow) (s : BattleState) (hs : Holds s) :
    Holds (p.continueFrom budget position visited flow s).final := by
  unfold continueFrom
  split
  · exact hs
  · exact (traceFrom_holds hkeeps _ _ _ s hs).1

end Program

/-! ## The situation stays -/

namespace Program

theorem traceFrom_sameSituation (p : Program) (budget position : Nat) (visited : List Nat)
    (s : BattleState) :
    (p.traceFrom budget position visited s).final.SameSituation s ∧
      ∀ v ∈ (p.traceFrom budget position visited s).visits, v.before.SameSituation s :=
  traceFrom_holds (fun node _ t ht => (node.after_sameSituation t).trans ht) budget position
    visited s (.refl s)

/-- A walk leaves turn, HP, level, enemies and cards alone. -/
theorem final_sameSituation (p : Program) (s : BattleState) :
    (p.trace s).final.SameSituation s :=
  (p.traceFrom_sameSituation _ _ _ _).1.trans s.clearMarks_sameSituation

theorem before_sameSituation {v : Visit} (h : v ∈ (p.trace s).visits) :
    v.before.SameSituation s :=
  ((p.traceFrom_sameSituation _ _ _ _).2 v h).trans s.clearMarks_sameSituation

/-! ## Each visit is a step -/

/-- The visit records what its node does on the state before it. -/
structure IsStep (p : Program) (v : Visit) : Prop where
  node : p.node? v.position = some v.node
  flow : v.flow = v.node.flow v.before
  after : v.after = v.node.after v.before

theorem traceFrom_isStep (p : Program) (budget position : Nat) (visited : List Nat)
    (s : BattleState) :
    ∀ v ∈ (p.traceFrom budget position visited s).visits, p.IsStep v := by
  induction budget, position, visited, s using traceFrom_induction (p := p) with
  | ranOff | revisited | cutShort => simp
  | stopped budget position visited s node hn hv hf =>
    intro v hmem
    rw [Trace.visits_cons] at hmem
    obtain rfl := List.mem_singleton.mp hmem
    exact ⟨hn, rfl, rfl⟩
  | step budget position visited s node next t hn hv hf ih =>
    intro v hmem
    rw [Trace.visits_cons] at hmem
    rcases List.mem_cons.mp hmem with rfl | hmem
    · exact ⟨hn, rfl, rfl⟩
    · exact ih v hmem

theorem trace_isStep {v : Visit} (h : v ∈ (p.trace s).visits) : p.IsStep v :=
  p.traceFrom_isStep _ _ _ _ v h

end Program

/-! ## Actions of a walk -/

/-- An action of the turn has fired at a node, or is the plain attack. -/
theorem Trace.mem_actions {t : Trace} {a : Action} (h : a ∈ t.actions) :
    a = .defaultAttack ∨ ∃ v ∈ t.visits, v.flow.emitted? = some a := by
  unfold Trace.actions at h
  split at h
  · exact .inl (List.mem_singleton.mp h)
  · exact .inl (List.mem_singleton.mp h)
  · exact .inr (List.mem_filterMap.mp h)

/-- **Every action of a walk has an open HP gate.** -/
theorem Program.trace_actions_openAt {a : Action} (h : a ∈ (p.trace s).actions) :
    a.OpenAt s.hp := by
  rcases Trace.mem_actions h with rfl | ⟨v, hv, hfired⟩
  · exact Action.defaultAttack_openAt s.hp
  · rw [(trace_isStep hv).flow] at hfired
    rw [← (before_sameSituation hv).hp]
    exact Node.emitted_openAt hfired

end EnemyBehavior
