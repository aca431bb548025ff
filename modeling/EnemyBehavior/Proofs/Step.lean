import EnemyBehavior.Node.Execute

/-!
# What one node does

Every node is handled by its own family, so executing it never fails. `Node.flow` and `Node.after`
are its two results as total functions; proofs about walks use them and not the handlers.

## Main statements

* `Node.execute_eq` — executing a node gives its flow and the state after it
* `verdictOn_congr` — what a verdict reads and writes
* `Node.after_sameSituation` — a node leaves turn, HP, level, enemies and cards alone
* `Node.SameGates.step` — a node reads level and number of enemies at its own gate only
* `Node.eq_of_emitted?` — what a node reports
* `Node.emitted_openAt` — an action that fires has an open HP gate
-/

namespace EnemyBehavior

/-! ## Flow and state as total functions -/

/-- The flow of an action on which this verdict is given. -/
def Verdict.flow (a : Action) : Verdict → Flow
  | fire => .emit a
  | skip => .next
  | fireAndStop => .emitAndStop a

namespace Node

/-- Where the walk goes on after the node. -/
def flow (s : BattleState) : Node → Flow
  | action a => (verdictOn a.condition s).1.flow a
  | branchFlag mask target => Handler.branch (s.hasFlags mask) target
  | branchHp compare value target => Handler.branch (compare.test s.hp value) target
  | branchLevel compare value target => Handler.branch (compare.test s.level value) target
  | branchCounter compare value target => Handler.branch (compare.test s.counter value) target
  | branchCard ids target => Handler.branch (s.hasAnyCard ids) target
  | branchRemainingEnemies count target => Handler.branch (s.enemies ≤ count) target
  | countdown => if s.counter = 1 then .next else .emitAndStop (.countdown s.counter)
  | endPath => .stop
  | noOp | preemptive _ | flagOperation .. | setCounter .. | setCounterIf .. | branchCombo .. =>
    .next

/-- The state the node leaves. -/
def after (s : BattleState) : Node → BattleState
  | action a => (verdictOn a.condition s).2
  | preemptive level =>
    { s with isPreemptive := true, doPreemptive := decide (level ≤ s.level) }
  | flagOperation op mask => s.applyFlagOp op mask
  | setCounter op value => s.applyCounterOp op value
  | setCounterIf compare value => if s.counter = compare then { s with counter := value } else s
  | countdown => { s with countdown := true }
  | noOp | branchFlag .. | branchHp .. | branchLevel .. | branchCounter .. | branchCard ..
  | branchCombo .. | branchRemainingEnemies .. | endPath => s

/-- **No node is refused.** -/
theorem execute_eq (node : Node) (s : BattleState) :
    node.execute s = .ok (node.flow s, node.after s) := by
  unfold execute
  rw [if_pos node.accepts_handler]
  cases node with
  | action a =>
    show Handler.executeAction (.action a) s = _
    simp only [Handler.executeAction, flow, after]
    obtain ⟨verdict, s'⟩ := verdictOn a.condition s
    cases verdict <;> rfl
  | _ => rfl

end Node

/-! ## The situation stays -/

namespace BattleState

/-- The states differ at most in registers and marks. -/
structure SameSituation (s t : BattleState) : Prop where
  turn : s.turn = t.turn
  hp : s.hp = t.hp
  level : s.level = t.level
  enemies : s.enemies = t.enemies
  cards : s.cards = t.cards

theorem SameSituation.refl (s : BattleState) : SameSituation s s := ⟨rfl, rfl, rfl, rfl, rfl⟩

theorem SameSituation.trans {s t u : BattleState} (h : SameSituation s t)
    (h' : SameSituation t u) : SameSituation s u :=
  ⟨h.turn.trans h'.turn, h.hp.trans h'.hp, h.level.trans h'.level, h.enemies.trans h'.enemies,
    h.cards.trans h'.cards⟩

theorem clearMarks_sameSituation (s : BattleState) : SameSituation s.clearMarks s :=
  ⟨rfl, rfl, rfl, rfl, rfl⟩

theorem applyFlagOp_sameSituation (s : BattleState) (op : FlagOp) (mask : UInt64) :
    SameSituation (s.applyFlagOp op mask) s := by
  cases op <;> exact ⟨rfl, rfl, rfl, rfl, rfl⟩

theorem applyCounterOp_sameSituation (s : BattleState) (op : CounterOp) (value : Int64) :
    SameSituation (s.applyCounterOp op value) s := by
  cases op <;> exact ⟨rfl, rfl, rfl, rfl, rfl⟩

end BattleState

/-- A verdict reads HP and one-time bits only; it uses up one-time bits and changes nothing else. -/
theorem verdictOn_congr (c : Option Condition) {s t : BattleState} (hhp : t.hp = s.hp)
    (hbits : t.oneTimeFlags = s.oneTimeFlags) :
    verdictOn c t
      = ((verdictOn c s).1, { t with oneTimeFlags := (verdictOn c s).2.oneTimeFlags }) := by
  have hsame : t = { t with oneTimeFlags := s.oneTimeFlags, hp := s.hp } := by rw [← hbits, ← hhp]
  cases c with
  | none =>
    show (Verdict.fireAndStop, t) = (.fireAndStop, { t with oneTimeFlags := s.oneTimeFlags })
    rw [← hbits]
  | some c =>
    simp only [verdictOn, Condition.evaluate, hhp, hbits]
    split
    · split
      · split
        · rfl
        · exact congrArg (Prod.mk _) hsame
      · exact congrArg (Prod.mk _) hsame
    · exact congrArg (Prod.mk _) hsame

theorem verdictOn_snd (c : Option Condition) (s : BattleState) :
    (verdictOn c s).2 = { s with oneTimeFlags := (verdictOn c s).2.oneTimeFlags } :=
  congrArg Prod.snd (verdictOn_congr c rfl rfl)

theorem Node.after_sameSituation (node : Node) (s : BattleState) :
    (node.after s).SameSituation s := by
  cases node with
  | action a =>
    show (verdictOn a.condition s).2.SameSituation s
    rw [verdictOn_snd]
    exact ⟨rfl, rfl, rfl, rfl, rfl⟩
  | flagOperation op mask => exact s.applyFlagOp_sameSituation op mask
  | setCounter op value => exact s.applyCounterOp_sameSituation op value
  | setCounterIf compare value =>
    simp only [after]
    split <;> exact ⟨rfl, rfl, rfl, rfl, rfl⟩
  | _ => exact ⟨rfl, rfl, rfl, rfl, rfl⟩

/-! ## Level and number of enemies -/

/-- What the node asks of level and number of enemies, it is told the same in both situations. -/
structure Node.SameGates (s : BattleState) (level enemies : UInt32) (node : Node) : Prop where
  marker : ∀ v, node = .preemptive v → (v ≤ s.level ↔ v ≤ level)
  branchLevel : ∀ compare v target, node = .branchLevel compare v target →
    compare.test s.level v = compare.test level v
  branchEnemies : ∀ count target, node = .branchRemainingEnemies count target →
    (s.enemies ≤ count ↔ enemies ≤ count)

/-- **Level and number of enemies are read by the gates on them only**, and never written. -/
theorem Node.SameGates.step {node : Node} {s : BattleState} {level enemies : UInt32}
    (h : node.SameGates s level enemies) :
    node.flow s = node.flow { s with level, enemies } ∧
      node.after { s with level, enemies } = { node.after s with level, enemies } := by
  cases node with
  | action a =>
    have hverdict : verdictOn a.condition { s with level, enemies } = _ :=
      verdictOn_congr a.condition (s := s) rfl rfl
    refine ⟨?_, ?_⟩
    · simp only [flow, hverdict]
    · simp only [after, hverdict]
      rw [verdictOn_snd a.condition s]
  | preemptive v =>
    have hgate := h.marker v rfl
    refine ⟨rfl, ?_⟩
    simp only [after, hgate]
  | branchLevel compare v target =>
    have hgate := h.branchLevel compare v target rfl
    exact ⟨by simp only [flow, hgate], rfl⟩
  | branchRemainingEnemies count target =>
    have hgate := h.branchEnemies count target rfl
    exact ⟨by simp only [flow, hgate], rfl⟩
  | flagOperation op mask => cases op <;> exact ⟨rfl, rfl⟩
  | setCounter op value => cases op <;> exact ⟨rfl, rfl⟩
  | setCounterIf compare value =>
    refine ⟨rfl, ?_⟩
    simp only [after]
    split <;> rfl
  | _ => exact ⟨rfl, rfl⟩

/-! ## HP gates -/

/-- The HP gate of the action, if it has one, is open at this percentage. -/
def Action.OpenAt (hp : UInt32) (a : Action) : Prop := ∀ t, a.hpThreshold? = some t → hp < t

theorem Action.openAt_of_ungated {hp : UInt32} {a : Action} (h : a.hpThreshold? = none) :
    a.OpenAt hp := by
  intro t ht
  rw [h] at ht
  cases ht

theorem Action.defaultAttack_openAt (hp : UInt32) : defaultAttack.OpenAt hp :=
  openAt_of_ungated rfl

theorem Condition.hpAllows_of_verdict {c : Condition} {s : BattleState}
    (h : (c.evaluate s).1 ≠ .skip) : c.hpAllows s.hp = true := by
  unfold evaluate at h
  split at h
  · assumption
  · exact absurd rfl h

theorem Action.openAt_of_verdict {a : Action} {s : BattleState}
    (h : (verdictOn a.condition s).1 ≠ .skip) : a.OpenAt s.hp := by
  cases hc : a.condition with
  | none =>
    refine openAt_of_ungated ?_
    simp [hpThreshold?, hc]
  | some c =>
    rw [hc] at h
    intro t ht
    have hallows : c.hpAllows s.hp = true := Condition.hpAllows_of_verdict h
    simp only [hpThreshold?, hc, Option.bind_some] at ht
    simpa [Condition.hpAllows, ht] using hallows

@[simp] theorem Handler.emitted?_branch (taken : Bool) (target : UInt64) :
    (branch taken target).emitted? = none := by
  cases taken <;> rfl

/-- The action a verdict reports is the one it is given on. -/
theorem Verdict.eq_of_emitted? {v : Verdict} {a b : Action}
    (h : (v.flow a).emitted? = some b) : b = a ∧ v ≠ .skip := by
  cases v with
  | skip => cases h
  | fire | fireAndStop =>
    cases h
    exact ⟨rfl, nofun⟩

/-- What a node reports is its own action, on which a verdict is given, or the rest of a
countdown. -/
theorem Node.eq_of_emitted? {node : Node} {s : BattleState} {a : Action}
    (h : (node.flow s).emitted? = some a) :
    (node = .action a ∧ (verdictOn a.condition s).1 ≠ .skip) ∨
      (node = .countdown ∧ a = .countdown s.counter) := by
  cases node with
  | action b =>
    obtain ⟨rfl, hverdict⟩ := Verdict.eq_of_emitted? h
    exact .inl ⟨rfl, hverdict⟩
  | countdown =>
    simp only [flow] at h
    split at h <;> cases h
    exact .inr ⟨rfl, rfl⟩
  | branchFlag | branchHp | branchLevel | branchCounter | branchCard | branchRemainingEnemies =>
    simp [flow] at h
  | _ => cases h

/-- **An action that fires has an open HP gate.** -/
theorem Node.emitted_openAt {node : Node} {s : BattleState} {a : Action}
    (h : (node.flow s).emitted? = some a) : a.OpenAt s.hp := by
  rcases Node.eq_of_emitted? h with ⟨-, hverdict⟩ | ⟨-, rfl⟩
  · exact Action.openAt_of_verdict hverdict
  · exact Action.openAt_of_ungated rfl

end EnemyBehavior
