import EnemyBehavior.Proofs.Run

/-!
# One-time bits

A one-time action fires only while all bits of its mask are unused, and then uses them up. No node
gives a bit back. So along visits that hand the register on from one to the next, the register only
grows, and the masks of the actions that fire have no bit in common.

`UsesUp` is the relation behind this. It holds of every walk, and walks that follow one another are
put together by `UsesUp.append`, whatever else happens to the state between them.

## Main statements

* `Node.usesUp` — one node finds the bits of its action unused and leaves them used
* `Program.trace_usesUp` — so does a walk
* `UsesUp.registers` — no bit is ever lost
* `UsesUp.pairwise_emitted` — the masks of the actions that fire are disjoint
-/

namespace EnemyBehavior

/-! ## Sets of bits -/

/-- The bits of the first word are among those of the second. -/
def BitsWithin (f g : UInt64) : Prop := f &&& g = f

instance (f g : UInt64) : Decidable (BitsWithin f g) := inferInstanceAs (Decidable (_ = _))

namespace BitsWithin

variable {f g k m : UInt64}

theorem refl (f : UInt64) : BitsWithin f f := UInt64.and_self

theorem trans (h : BitsWithin f g) (h' : BitsWithin g k) : BitsWithin f k :=
  calc f &&& k = (f &&& g) &&& k := by rw [h]
    _ = f &&& (g &&& k) := UInt64.and_assoc f g k
    _ = f := by rw [h', h]

theorem or_left (f m : UInt64) : BitsWithin f (f ||| m) := by
  refine UInt64.eq_of_toBitVec_eq (BitVec.eq_of_getLsbD_eq fun i _ => ?_)
  simpa using fun h => .inl h

theorem or_right (f m : UInt64) : BitsWithin m (f ||| m) := by
  rw [UInt64.or_comm]
  exact or_left m f

/-- What has no bit in common with the larger set has none in common with the smaller one. -/
theorem disjoint (h : BitsWithin f g) (hm : g &&& m = 0) : f &&& m = 0 :=
  calc f &&& m = (f &&& g) &&& m := by rw [h]
    _ = f &&& (g &&& m) := UInt64.and_assoc f g m
    _ = 0 := by rw [hm, UInt64.and_zero]

end BitsWithin

/-! ## One node -/

/-- The bits that an action with this condition uses up when it fires; none without a mask. -/
def maskOf (c : Option Condition) : UInt64 := (c.bind (·.oneTime)).getD 0

/-- The bits the action uses up when it fires. -/
def Action.oneTimeMask (a : Action) : UInt64 := maskOf a.condition

/-- The one-time masks of the actions have no bit in common, if both have one. -/
def Action.MasksDisjoint (a b : Action) : Prop :=
  ∀ m n, a.oneTime? = some m → b.oneTime? = some n → m &&& n = 0

namespace Action

variable {a b : Action} {m : UInt64}

theorem oneTimeMask_of_oneTime? (h : a.oneTime? = some m) : a.oneTimeMask = m := by
  have hbind : a.condition.bind (·.oneTime) = some m := h
  simp [oneTimeMask, maskOf, hbind]

theorem masksDisjoint_of_and (h : a.oneTimeMask &&& b.oneTimeMask = 0) : a.MasksDisjoint b := by
  intro m n hm hn
  rwa [oneTimeMask_of_oneTime? hm, oneTimeMask_of_oneTime? hn] at h

theorem MasksDisjoint.symm (h : a.MasksDisjoint b) : b.MasksDisjoint a := by
  intro m n hm hn
  rw [UInt64.and_comm]
  exact h n m hn hm

/-- Only an action without bits is disjoint to itself. -/
theorem not_masksDisjoint_self (hm : a.oneTime? = some m) (hne : m ≠ 0) : ¬ a.MasksDisjoint a := by
  intro h
  have hself : m &&& m = 0 := h m m hm hm
  rw [UInt64.and_self] at hself
  exact hne hself

end Action

/-- The bits used up by the action that is reported. -/
def Flow.mask (f : Flow) : UInt64 := (f.emitted?.map Action.oneTimeMask).getD 0

theorem Flow.mask_of_emitted? {f : Flow} {a : Action} (h : f.emitted? = some a) :
    f.mask = a.oneTimeMask := by
  unfold mask
  rw [h]
  rfl

@[simp] theorem Flow.mask_branch (taken : Bool) (target : UInt64) :
    (Handler.branch taken target).mask = 0 := by
  simp [mask]

/-- An action is passed over and nothing changes, or it fires: then all its bits were unused, and
now they are used. -/
theorem verdictOn_cases (c : Option Condition) (s : BattleState) :
    verdictOn c s = (.skip, s) ∨
      ∃ verdict, verdict ≠ .skip ∧ s.oneTimeFlags &&& maskOf c = 0 ∧
        verdictOn c s = (verdict, { s with oneTimeFlags := s.oneTimeFlags ||| maskOf c }) := by
  -- without a mask there is nothing to use up
  have hreusable : maskOf c = 0 →
      s.oneTimeFlags &&& maskOf c = 0 ∧
        s = { s with oneTimeFlags := s.oneTimeFlags ||| maskOf c } := by
    intro hmask
    rw [hmask, UInt64.and_zero, UInt64.or_zero]
    exact ⟨rfl, rfl⟩
  cases c with
  | none =>
    obtain ⟨hunused, hsame⟩ := hreusable rfl
    exact .inr ⟨.fireAndStop, by decide, hunused, congrArg (Prod.mk _) hsame⟩
  | some c =>
    simp only [verdictOn, Condition.evaluate]
    by_cases hopen : c.hpAllows s.hp = true
    · rw [if_pos hopen]
      cases hmask : c.oneTime with
      | none =>
        obtain ⟨hunused, hsame⟩ := hreusable (by simp [maskOf, hmask])
        refine .inr ⟨_, ?_, hunused, congrArg (Prod.mk _) hsame⟩
        split <;> decide
      | some mask =>
        have hsome : maskOf (some c) = mask := by simp [maskOf, hmask]
        rw [hsome]
        by_cases hunused : s.oneTimeFlags &&& mask = 0
        · exact .inr ⟨.fireAndStop, by decide, hunused, if_pos hunused⟩
        · exact .inl (if_neg hunused)
    · exact .inl (if_neg hopen)

/-- **A node finds the bits of the action it reports unused, and leaves them used.** -/
theorem Node.usesUp (node : Node) (s : BattleState) :
    s.oneTimeFlags &&& (node.flow s).mask = 0 ∧
      (node.after s).oneTimeFlags = s.oneTimeFlags ||| (node.flow s).mask := by
  have hidle : (node.flow s).mask = 0 → (node.after s).oneTimeFlags = s.oneTimeFlags →
      s.oneTimeFlags &&& (node.flow s).mask = 0 ∧
        (node.after s).oneTimeFlags = s.oneTimeFlags ||| (node.flow s).mask := by
    intro hmask hafter
    rw [hmask, hafter, UInt64.and_zero, UInt64.or_zero]
    exact ⟨rfl, rfl⟩
  cases node with
  | action a =>
    rcases verdictOn_cases a.condition s with hskip | ⟨verdict, hfires, hunused, hverdict⟩
    · apply hidle
      · simp only [flow, hskip]
        rfl
      · simp only [after, hskip]
    · simp only [flow, after, hverdict]
      cases verdict with
      | skip => exact absurd rfl hfires
      | fire | fireAndStop => exact ⟨hunused, rfl⟩
  | branchFlag | branchHp | branchLevel | branchCounter | branchCard | branchRemainingEnemies =>
    exact hidle (Flow.mask_branch _ _) rfl
  | flagOperation op mask => cases op <;> exact hidle rfl rfl
  | setCounter op value => cases op <;> exact hidle rfl rfl
  | setCounterIf compare value =>
    refine hidle rfl ?_
    simp only [after]
    split <;> rfl
  | countdown =>
    refine hidle ?_ rfl
    simp only [flow]
    split <;> rfl
  | _ => exact hidle rfl rfl

/-! ## Visits that hand the register on -/

/-- Along the visits the register goes from the first word to the last: each visit takes it over
from the one before, finds the bits of its action unused, and leaves them used. -/
inductive UsesUp : UInt64 → List Visit → UInt64 → Prop
  | done (flags : UInt64) : UsesUp flags [] flags
  | visit {v : Visit} {vs : List Visit} {final : UInt64} :
    v.before.oneTimeFlags &&& v.flow.mask = 0 →
    v.after.oneTimeFlags = v.before.oneTimeFlags ||| v.flow.mask →
    UsesUp v.after.oneTimeFlags vs final →
    UsesUp v.before.oneTimeFlags (v :: vs) final

namespace UsesUp

variable {f g k : UInt64} {v : Visit} {vs ws : List Visit}

theorem append (h : UsesUp f vs g) (h' : UsesUp g ws k) : UsesUp f (vs ++ ws) k := by
  induction h with
  | done => exact h'
  | visit hunused hused _ ih => exact .visit hunused hused (ih h')

/-- The register only grows. -/
theorem within (h : UsesUp f vs g) : BitsWithin f g := by
  induction h with
  | done flags => exact .refl flags
  | visit _ hused _ ih =>
    rw [hused] at ih
    exact (BitsWithin.or_left _ _).trans ih

/-- The bits of an action that fires had not been used before. -/
theorem unused (h : UsesUp f vs g) : ∀ v ∈ vs, f &&& v.flow.mask = 0 := by
  induction h with
  | done => simp
  | visit hunused hused _ ih =>
    refine List.forall_mem_cons.mpr ⟨hunused, fun w hw => ?_⟩
    have hlater := ih w hw
    rw [hused] at hlater
    exact (BitsWithin.or_left _ _).disjoint hlater

/-- The bits of an action that fires stay used. -/
theorem used (h : UsesUp f vs g) : ∀ v ∈ vs, BitsWithin v.flow.mask g := by
  induction h with
  | done => simp
  | visit _ hused hrest ih =>
    refine List.forall_mem_cons.mpr ⟨?_, ih⟩
    have hgrown := hrest.within
    rw [hused] at hgrown
    exact (BitsWithin.or_right _ _).trans hgrown

/-- **No bit is ever lost**: of any two values the register takes, the earlier is within the
later. -/
theorem registers (h : UsesUp f vs g) :
    (f :: vs.map (·.after.oneTimeFlags) ++ [g]).Pairwise BitsWithin := by
  induction h with
  | done flags => simp [BitsWithin.refl]
  | @visit v vs final _ hused hrest ih =>
    have hstep : BitsWithin v.before.oneTimeFlags v.after.oneTimeFlags := by
      rw [hused]
      exact .or_left _ _
    obtain ⟨hlater, -⟩ := List.pairwise_cons.mp ih
    refine List.pairwise_cons.mpr ⟨?_, ih⟩
    exact List.forall_mem_cons.mpr ⟨hstep, fun w hw => hstep.trans (hlater w hw)⟩

/-- Different visits use up different bits. -/
theorem pairwise_mask (h : UsesUp f vs g) :
    vs.Pairwise fun v w => v.flow.mask &&& w.flow.mask = 0 := by
  induction h with
  | done => exact .nil
  | visit _ hused hrest ih =>
    refine List.pairwise_cons.mpr ⟨fun w hw => ?_, ih⟩
    have hlater := hrest.unused w hw
    rw [hused] at hlater
    exact (BitsWithin.or_right _ _).disjoint hlater

/-- **The masks of the actions that fire are disjoint.** -/
theorem pairwise_emitted (h : UsesUp f vs g) :
    (vs.filterMap (·.flow.emitted?)).Pairwise Action.MasksDisjoint := by
  refine List.pairwise_filterMap.mpr (h.pairwise_mask.imp ?_)
  intro v w hvw a ha b hb
  rw [Flow.mask_of_emitted? ha, Flow.mask_of_emitted? hb] at hvw
  exact Action.masksDisjoint_of_and hvw

end UsesUp

/-! ## Walks -/

namespace Program

variable {p : Program} {s : BattleState} {a : Action}

theorem traceFrom_usesUp (p : Program) (budget position : Nat) (visited : List Nat)
    (s : BattleState) :
    UsesUp s.oneTimeFlags (p.traceFrom budget position visited s).visits
      (p.traceFrom budget position visited s).final.oneTimeFlags := by
  induction budget, position, visited, s using traceFrom_induction (p := p) with
  | ranOff | revisited | cutShort => exact .done _
  | stopped budget position visited s node hn hv hf =>
    obtain ⟨hunused, hused⟩ := node.usesUp s
    exact UsesUp.visit (v := ⟨position, node, s, node.flow s, node.after s⟩) hunused hused (.done _)
  | step budget position visited s node next t hn hv hf ih =>
    obtain ⟨hunused, hused⟩ := node.usesUp s
    exact UsesUp.visit (v := ⟨position, node, s, node.flow s, node.after s⟩) hunused hused ih

/-- **A walk hands the register on from node to node.** -/
theorem trace_usesUp (p : Program) (s : BattleState) :
    UsesUp s.oneTimeFlags (p.trace s).visits (p.trace s).final.oneTimeFlags :=
  p.traceFrom_usesUp maxSteps 1 [] s.clearMarks

/-- The bits of an action of a walk are unused before it and used after it. -/
theorem usesUp_of_mem_actions (h : a ∈ (p.trace s).actions) :
    s.oneTimeFlags &&& a.oneTimeMask = 0 ∧
      BitsWithin a.oneTimeMask (p.trace s).final.oneTimeFlags := by
  rcases Trace.mem_actions h with rfl | ⟨v, hv, hfired⟩
  · exact ⟨UInt64.and_zero, UInt64.zero_and⟩
  · rw [← Flow.mask_of_emitted? hfired]
    exact ⟨(p.trace_usesUp s).unused v hv, (p.trace_usesUp s).used v hv⟩

end Program

end EnemyBehavior
