import EnemyBehavior.Proofs.TurnSampling
import EnemyBehavior.Simulation

/-!
# What a walk reads

A walk does not read the number of the turn, the marks of the opening move, or whether a countdown
is running. States that differ in nothing else look the same to it (`BattleState.SameView`): the
walks from them take the same route. For the next turn the running countdown matters as well
(`BattleState.SameCourse`).

Markers of the opening move only set marks, so to a walk they are nodes that do nothing.

## Main statements

* `Node.agree_sameView` — no node reads more than the view
* `Program.agree_steady` — blanking the markers makes no difference to a walk
* `Program.actionsAt_eq_of_sameView` — in the same view the enemy does the same at each percentage
* `BattleState.SameCourse.endTurn` — states in the same course go the same way
-/

namespace EnemyBehavior

variable {p : Program} {s t s' t' : BattleState}

namespace BattleState

/-- The states look the same to a walk. -/
structure SameView (s t : BattleState) : Prop where
  flags : s.flags = t.flags
  oneTimeFlags : s.oneTimeFlags = t.oneTimeFlags
  counter : s.counter = t.counter
  hp : s.hp = t.hp
  level : s.level = t.level
  enemies : s.enemies = t.enemies
  cards : s.cards = t.cards

/-- The states look the same to this walk and to those of the turns that follow. -/
structure SameCourse (s t : BattleState) : Prop extends SameView s t where
  countdown : s.countdown = t.countdown

namespace SameView

theorem refl (s : BattleState) : SameView s s := ⟨rfl, rfl, rfl, rfl, rfl, rfl, rfl⟩

theorem symm (h : SameView s t) : SameView t s :=
  ⟨h.flags.symm, h.oneTimeFlags.symm, h.counter.symm, h.hp.symm, h.level.symm, h.enemies.symm,
    h.cards.symm⟩

theorem trans {u : BattleState} (h : SameView s t) (h' : SameView t u) : SameView s u :=
  ⟨h.flags.trans h'.flags, h.oneTimeFlags.trans h'.oneTimeFlags, h.counter.trans h'.counter,
    h.hp.trans h'.hp, h.level.trans h'.level, h.enemies.trans h'.enemies, h.cards.trans h'.cards⟩

theorem clearMarks (h : SameView s t) : SameView s.clearMarks t.clearMarks :=
  ⟨h.flags, h.oneTimeFlags, h.counter, h.hp, h.level, h.enemies, h.cards⟩

theorem withHp (h : SameView s t) (hp : UInt32) : SameView { s with hp } { t with hp } :=
  ⟨h.flags, h.oneTimeFlags, h.counter, rfl, h.level, h.enemies, h.cards⟩

theorem withEnemies (h : SameView s t) (enemies : UInt32) :
    SameView { s with enemies } { t with enemies } :=
  ⟨h.flags, h.oneTimeFlags, h.counter, h.hp, h.level, rfl, h.cards⟩

end SameView

end BattleState

/-! ## Nodes -/

/-- A verdict reads no more than the view, and uses up one-time bits only. -/
theorem verdictOn_sameView (c : Option Condition) (h : s.SameView t) :
    (verdictOn c s).1 = (verdictOn c t).1 ∧ (verdictOn c s).2.SameView (verdictOn c t).2 := by
  rw [verdictOn_congr c h.hp.symm h.oneTimeFlags.symm, verdictOn_snd c s]
  exact ⟨rfl, h.flags, rfl, h.counter, h.hp, h.level, h.enemies, h.cards⟩

/-- **No node reads more than the view.** -/
theorem Node.agree_sameView (node : Node) :
    Node.Agree BattleState.SameView node node := by
  intro s t h
  cases node with
  | action a =>
    obtain ⟨hverdict, hafter⟩ := verdictOn_sameView a.condition h
    exact ⟨congrArg (Verdict.flow a) hverdict, hafter⟩
  | preemptive level =>
    exact ⟨rfl, h.flags, h.oneTimeFlags, h.counter, h.hp, h.level, h.enemies, h.cards⟩
  | flagOperation op mask =>
    have hflags := h.flags
    refine ⟨rfl, ?_⟩
    cases op <;> exact ⟨by simp [after, BattleState.applyFlagOp, hflags], h.oneTimeFlags,
      h.counter, h.hp, h.level, h.enemies, h.cards⟩
  | setCounter op value =>
    have hcounter := h.counter
    refine ⟨rfl, ?_⟩
    cases op <;> exact ⟨h.flags, h.oneTimeFlags,
      by simp [after, BattleState.applyCounterOp, hcounter], h.hp, h.level, h.enemies, h.cards⟩
  | setCounterIf compare value =>
    refine ⟨rfl, ?_⟩
    simp only [after, h.counter]
    split
    · exact ⟨h.flags, h.oneTimeFlags, rfl, h.hp, h.level, h.enemies, h.cards⟩
    · exact h
  | branchFlag mask target => exact ⟨by simp [flow, BattleState.hasFlags, h.flags], h⟩
  | branchHp compare value target => exact ⟨by simp [flow, h.hp], h⟩
  | branchLevel compare value target => exact ⟨by simp [flow, h.level], h⟩
  | branchCounter compare value target => exact ⟨by simp [flow, h.counter], h⟩
  | branchCard ids target => exact ⟨by simp [flow, BattleState.hasAnyCard, h.cards], h⟩
  | branchRemainingEnemies count target => exact ⟨by simp [flow, h.enemies], h⟩
  | countdown =>
    refine ⟨by simp [flow, h.counter], ?_⟩
    exact ⟨h.flags, h.oneTimeFlags, h.counter, h.hp, h.level, h.enemies, h.cards⟩
  | noOp | branchCombo | endPath => exact ⟨rfl, h⟩

/-- A marker of the opening move looks like a node that does nothing. -/
theorem Node.agree_sameView_blankIf (node : Node) :
    Node.Agree BattleState.SameView node (Program.blankIf isPreemptive node) := by
  by_cases hmarker : node.isPreemptive = true
  · rw [Program.blankIf, if_pos hmarker]
    intro s t h
    cases node with
    | preemptive level =>
      exact ⟨rfl, h.flags, h.oneTimeFlags, h.counter, h.hp, h.level, h.enemies, h.cards⟩
    | _ => cases hmarker
  · rw [Program.blankIf, if_neg hmarker]
    exact agree_sameView node

/-- Only a countdown node sets the countdown running, and no node stops it. -/
theorem Node.countdown_after (node : Node) (s : BattleState) :
    (node.after s).countdown = (s.countdown || node == .countdown) := by
  cases node with
  | action a =>
    show (verdictOn a.condition s).2.countdown = _
    rw [verdictOn_snd]
    simp
  | flagOperation op mask => cases op <;> simp [after, BattleState.applyFlagOp]
  | setCounter op value => cases op <;> simp [after, BattleState.applyCounterOp]
  | setCounterIf compare value =>
    simp only [after]
    split <;> simp
  | _ => simp [after]

theorem Node.agree_sameCourse (node : Node) :
    Node.Agree BattleState.SameCourse node node := by
  intro s t h
  obtain ⟨hflow, hafter⟩ := node.agree_sameView s t h.toSameView
  refine ⟨hflow, hafter, ?_⟩
  rw [countdown_after, countdown_after, h.countdown]

/-! ## Programs -/

namespace Program

theorem agree_sameView (p : Program) : p.Agree BattleState.SameView p :=
  agree_self fun node _ => node.agree_sameView

theorem agree_sameCourse (p : Program) : p.Agree BattleState.SameCourse p :=
  agree_self fun node _ => node.agree_sameCourse

theorem node?_blank (p : Program) (chosen : Node → Bool) (position : Nat) :
    (p.blank chosen).node? position = (p.node? position).map (blankIf chosen) := by
  cases position with
  | zero => simp [node?, blankIf]
  | succ index => simp [node?, blank, toList]

/-- What is left of a program is one of its nodes that was not chosen, or does nothing. -/
theorem mem_toList_blank {chosen : Node → Bool} {node : Node}
    (h : node ∈ (p.blank chosen).toList) :
    node = .noOp ∨ (node ∈ p.toList ∧ chosen node = false) := by
  have hmem : node ∈ p.toList.map (blankIf chosen) := h
  obtain ⟨original, horiginal, rfl⟩ := List.mem_map.mp hmem
  unfold blankIf
  split
  · exact .inl rfl
  · next hnot => exact .inr ⟨horiginal, by simpa using hnot⟩

/-- What holds of all nodes, and of one that does nothing, holds of those that are left. -/
theorem forall_mem_blank {P : Node → Prop} {chosen : Node → Bool} (hnoOp : P .noOp)
    (h : ∀ node ∈ p.toList, P node) : ∀ node ∈ (p.blank chosen).toList, P node := by
  intro node hnode
  rcases mem_toList_blank hnode with rfl | ⟨hmem, -⟩
  · exact hnoOp
  · exact h node hmem

theorem forall_mem_steady {P : Node → Prop} (hnoOp : P .noOp) (h : ∀ node ∈ p.toList, P node) :
    ∀ node ∈ p.steady.toList, P node :=
  forall_mem_blank hnoOp (forall_mem_blank hnoOp h)

/-- **A blanked program goes in step with the original** if the chosen nodes agree with nodes that
do nothing. -/
theorem agree_blank {R : BattleState → BattleState → Prop} {chosen : Node → Bool}
    (h : ∀ node, Node.Agree R node (blankIf chosen node)) (p : Program) :
    p.Agree R (p.blank chosen) := by
  intro position
  rw [node?_blank]
  cases p.node? position with
  | none => exact .none
  | some node => exact .some (h node)

/-- **To a walk, blanking the markers makes no difference.** -/
theorem agree_steady (p : Program) : p.withoutPassives.Agree BattleState.SameView p.steady :=
  agree_blank Node.agree_sameView_blankIf p.withoutPassives

/-- In the same view, programs that a walk cannot tell apart do the same at each percentage. -/
theorem actionsAt_eq_of_sameView {q : Program} (hpq : p.Agree BattleState.SameView q)
    (h : s.SameView t) (hp : UInt32) : p.actionsAt s hp = q.actionsAt t hp :=
  (trace_sameRoute hpq (h.withHp hp).clearMarks).actions

end Program

/-! ## The end of a turn -/

namespace BattleState

theorem SameCourse.clearMarks (h : SameCourse s t) : SameCourse s.clearMarks t.clearMarks :=
  ⟨h.toSameView.clearMarks, h.countdown⟩

theorem SameCourse.withHp (h : SameCourse s t) (hp : UInt32) :
    SameCourse { s with hp } { t with hp } :=
  ⟨h.toSameView.withHp hp, h.countdown⟩

theorem SameCourse.withEnemies (h : SameCourse s t) (enemies : UInt32) :
    SameCourse { s with enemies } { t with enemies } :=
  ⟨h.toSameView.withEnemies enemies, h.countdown⟩

theorem SameCourse.tickCountdown (h : SameCourse s t) :
    SameCourse s.tickCountdown t.tickCountdown := by
  obtain ⟨hview, hcountdown⟩ := h
  unfold BattleState.tickCountdown
  rw [← hcountdown, ← hview.counter]
  by_cases hrunning : s.countdown = true
  · rw [if_pos hrunning, if_pos hrunning]
    by_cases hpositive : 0 < s.counter
    · rw [if_pos hpositive, if_pos hpositive]
      exact ⟨⟨hview.flags, hview.oneTimeFlags, rfl, hview.hp, hview.level, hview.enemies,
        hview.cards⟩, rfl⟩
    · rw [if_neg hpositive, if_neg hpositive]
      exact ⟨⟨hview.flags, hview.oneTimeFlags, rfl, hview.hp, hview.level, hview.enemies,
        hview.cards⟩, rfl⟩
  · rw [if_neg hrunning, if_neg hrunning]
    exact ⟨hview, hcountdown⟩

/-- **States in the same course are in the same course on the next turn.** -/
theorem SameCourse.endTurn (h : SameCourse s t) (hs : s.endTurn = .ok s')
    (ht : t.endTurn = .ok t') : SameCourse s' t' := by
  obtain ⟨-, rfl⟩ := endTurn_eq_ok_iff.mp hs
  obtain ⟨-, rfl⟩ := endTurn_eq_ok_iff.mp ht
  obtain ⟨hview, hcountdown⟩ := h.tickCountdown
  exact ⟨⟨hview.flags, hview.oneTimeFlags, hview.counter, hview.hp, hview.level, hview.enemies,
    hview.cards⟩, hcountdown⟩

/-- Unless the counter is positive, a running countdown lowers nothing. -/
theorem endTurn_sameView (hcounter : ¬ 0 < s.counter) (hs : s.endTurn = .ok s') :
    s'.SameView s := by
  obtain ⟨-, rfl⟩ := endTurn_eq_ok_iff.mp hs
  unfold BattleState.tickCountdown
  rw [if_neg hcounter]
  split <;> exact ⟨rfl, rfl, rfl, rfl, rfl, rfl, rfl⟩

end BattleState

end EnemyBehavior
