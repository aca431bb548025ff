import EnemyBehavior.Proofs.Run
import Mathlib.Order.Bounds.Defs

/-!
# The HP checkpoints are complete

A walk reads HP only where it compares it with a boundary of the program. Two percentages on the
same side of every boundary therefore lead to the same walk. From any percentage up to the next
checkpoint no boundary is crossed, because the percentage just below a boundary is a checkpoint
too.

## Main statements

* `Program.sameSide_of_isLeast` — no boundary separates a percentage from the checkpoint above it
* `Program.map_toNat_hpNeighbourhood` — a boundary and its neighbours, reckoned in integers
* `Program.walk_at_sameSide` — on one side of all boundaries, HP makes no difference to a walk
* `Program.walk_at_checkpoint_above` — the checkpoint above stands for the percentage
-/

namespace EnemyBehavior

variable {p : Program} {s t : BattleState} {h c b : UInt32}

/-! ## Sides of a boundary -/

/-- No comparison with the boundary tells the two percentages apart. -/
structure SameSide (h c b : UInt32) : Prop where
  lt_iff : h < b ↔ c < b
  eq_iff : h = b ↔ c = b

theorem SameSide.ge_iff (hs : SameSide h c b) : b ≤ h ↔ b ≤ c := by
  rw [← UInt32.not_lt, ← UInt32.not_lt, hs.lt_iff]

theorem SameSide.test_eq (hs : SameSide h c b) (compare : Comparison) :
    compare.test h b = compare.test c b := by
  cases compare with
  | less => simp only [Comparison.test, hs.lt_iff]
  | equal => simp only [Comparison.test, hs.eq_iff]
  | greaterOrEqual => simp only [Comparison.test, hs.ge_iff]

/-! ## HP in one step -/

/-- The states have these percentages and are equal otherwise. -/
def BattleState.AtHps (h c : UInt32) (s t : BattleState) : Prop := s.hp = h ∧ t = { s with hp := c }

theorem Condition.hpAllows_eq {cond : Condition}
    (hb : ∀ b, cond.hpThreshold = some b → SameSide h c b) : cond.hpAllows h = cond.hpAllows c := by
  unfold hpAllows
  cases ht : cond.hpThreshold with
  | none => rfl
  | some b =>
    have hlt := (hb b ht).lt_iff
    simp only [Option.all_some, hlt]

/-- A verdict is the same at both percentages, and so is what it uses up. -/
theorem verdictOn_at_sameSide {a : Action}
    (hb : ∀ b, a.hpThreshold? = some b → SameSide s.hp c b) :
    verdictOn a.condition { s with hp := c }
      = ((verdictOn a.condition s).1, { (verdictOn a.condition s).2 with hp := c }) := by
  cases hc : a.condition with
  | none => rfl
  | some cond =>
    have hallows : cond.hpAllows s.hp = cond.hpAllows c := by
      refine Condition.hpAllows_eq fun b ht => hb b ?_
      simp [Action.hpThreshold?, hc, ht]
    simp only [verdictOn, Condition.evaluate, hallows]
    split
    · split
      · split <;> rfl
      · rfl
    · rfl

/-- **A node whose boundary separates no two percentages does the same at both.** -/
theorem Node.agree_atHps {node : Node} (hb : ∀ b, node.hpBoundary? = some b → SameSide h c b) :
    Node.Agree (BattleState.AtHps h c) node node := by
  rintro s _ ⟨rfl, rfl⟩
  cases node with
  | action a =>
    have hv := verdictOn_at_sameSide (s := s) (a := a) hb
    refine ⟨?_, ?_, ?_⟩
    · simp only [flow, hv]
    · exact (after_sameSituation (.action a) s).hp
    · simp only [after, hv]
  | branchHp compare value target =>
    have htest := (hb value rfl).test_eq compare
    exact ⟨by simp only [flow, htest], rfl, rfl⟩
  | flagOperation op mask => cases op <;> exact ⟨rfl, rfl, rfl⟩
  | setCounter op value => cases op <;> exact ⟨rfl, rfl, rfl⟩
  | setCounterIf compare value =>
    refine ⟨rfl, ?_⟩
    simp only [after]
    split <;> exact ⟨rfl, rfl⟩
  | _ => exact ⟨rfl, rfl, rfl⟩

/-! ## The checkpoints -/

namespace Program

/-- The percentages that the nodes of the program compare HP with. -/
def hpBoundaries (p : Program) : List UInt32 := p.toList.filterMap Node.hpBoundary?

theorem agree_atHps (hb : ∀ b ∈ p.hpBoundaries, SameSide h c b) :
    p.Agree (BattleState.AtHps h c) p :=
  agree_self fun node hnode => Node.agree_atHps fun b hbound =>
    hb b (List.mem_filterMap.mpr ⟨node, hnode, hbound⟩)

/-- **On one side of all boundaries, HP makes no difference to a walk.** -/
theorem walk_at_sameSide (hb : ∀ b ∈ p.hpBoundaries, SameSide h c b) (s : BattleState) :
    (p.walk { s with hp := h }).1 = (p.walk { s with hp := c }).1 ∧
      (p.walk { s with hp := c }).2 = { (p.walk { s with hp := h }).2 with hp := c } := by
  obtain ⟨hwalk, -, hfinal⟩ := walk_eq_of_agree (agree_atHps hb)
    (s := { s with hp := h }) (t := { s with hp := c }) ⟨rfl, rfl⟩
  exact ⟨hwalk, hfinal⟩

theorem mem_hpCheckpoints :
    c ∈ p.hpCheckpoints ↔ c = fullHp ∨ ∃ b ∈ p.hpBoundaries, c ∈ hpNeighbourhood b := by
  unfold hpCheckpoints hpBoundaries
  rw [mem_ascending, List.mem_cons, List.mem_flatMap]

theorem fullHp_mem_hpCheckpoints (p : Program) : fullHp ∈ p.hpCheckpoints :=
  mem_hpCheckpoints.mpr (.inl rfl)

theorem toNat_min_fullHp (b : UInt32) : (min b fullHp).toNat = min b.toNat 100 := by
  show (if b ≤ fullHp then b else fullHp).toNat = _
  have hfull : fullHp.toNat = 100 := rfl
  split
  · next hle =>
    rw [UInt32.le_iff_toNat_le] at hle
    omega
  · next hgt =>
    rw [UInt32.le_iff_toNat_le] at hgt
    omega

/-- **A boundary and its neighbours are reckoned exactly**: no addition leaves the range of a word,
and no subtraction goes below zero. -/
theorem map_toNat_hpNeighbourhood (b : UInt32) :
    (hpNeighbourhood b).map UInt32.toNat =
      [min b.toNat 100, min b.toNat 100 - 1, min (min b.toNat 100 + 1) 100] := by
  have hmin := toNat_min_fullHp b
  have hbelow : (if min b fullHp = 0 then 0 else min b fullHp - 1).toNat
      = min b.toNat 100 - 1 := by
    split
    · next hzero =>
      have hzero' : (min b fullHp).toNat = 0 := congrArg UInt32.toNat hzero
      show 0 = _
      omega
    · next hne =>
      have hpos : (min b fullHp).toNat ≠ 0 := fun h0 => hne (UInt32.toNat_inj.mp h0)
      have hone : (1 : UInt32) ≤ min b fullHp := by
        rw [UInt32.le_iff_toNat_le]
        show 1 ≤ _
        omega
      rw [UInt32.toNat_sub_of_le _ _ hone, hmin]
      rfl
  have habove : (min b fullHp + 1).toNat = min b.toNat 100 + 1 := by
    rw [UInt32.toNat_add, hmin]
    show (_ + 1) % 4294967296 = _
    omega
  simp only [hpNeighbourhood, List.map_cons, List.map_nil, toNat_min_fullHp, hbelow, habove]

theorem le_fullHp_of_mem_hpNeighbourhood (hc : c ∈ hpNeighbourhood b) : c ≤ fullHp := by
  have hfull : fullHp.toNat = 100 := rfl
  have hmem : c.toNat ∈ (hpNeighbourhood b).map UInt32.toNat := List.mem_map_of_mem hc
  rw [map_toNat_hpNeighbourhood] at hmem
  simp only [List.mem_cons, List.not_mem_nil, or_false] at hmem
  rw [UInt32.le_iff_toNat_le]
  omega

theorem le_fullHp_of_mem_hpCheckpoints (hc : c ∈ p.hpCheckpoints) : c ≤ fullHp := by
  rcases mem_hpCheckpoints.mp hc with rfl | ⟨b, -, hb⟩
  · exact UInt32.le_refl _
  · exact le_fullHp_of_mem_hpNeighbourhood hb

/-- A boundary up to full HP is a checkpoint. -/
theorem boundary_mem_hpCheckpoints (hb : b ∈ p.hpBoundaries) (hle : b ≤ fullHp) :
    b ∈ p.hpCheckpoints := by
  refine mem_hpCheckpoints.mpr (.inr ⟨b, hb, ?_⟩)
  have hmin : min b fullHp = b := if_pos hle
  simp [hpNeighbourhood, hmin]

/-- The percentage just below such a boundary is a checkpoint. -/
theorem pred_boundary_mem_hpCheckpoints (hb : b ∈ p.hpBoundaries) (hle : b ≤ fullHp)
    (hne : b ≠ 0) : b - 1 ∈ p.hpCheckpoints := by
  refine mem_hpCheckpoints.mpr (.inr ⟨b, hb, ?_⟩)
  have hmin : min b fullHp = b := if_pos hle
  simp [hpNeighbourhood, hmin, hne]

/-! ## The checkpoint above a percentage -/

/-- The least checkpoint from a percentage on. -/
theorem exists_checkpoint_above (p : Program) (hh : h ≤ fullHp) :
    ∃ c, IsLeast {c | c ∈ p.hpCheckpoints ∧ h ≤ c} c := by
  cases hfind : p.hpCheckpoints.find? (fun c => h ≤ c) with
  | none =>
    have hnone := List.find?_eq_none.mp hfind fullHp p.fullHp_mem_hpCheckpoints
    simp [hh] at hnone
  | some c =>
    have hmem : c ∈ p.hpCheckpoints := List.mem_of_find?_eq_some hfind
    have hc : h ≤ c := by simpa using List.find?_some hfind
    refine ⟨c, ⟨hmem, hc⟩, ?_⟩
    rintro d ⟨hd, hle⟩
    rcases eq_or_rel_of_find? (pairwise_ascending _) hfind hd (decide_eq_true hle) with rfl | hlt
    · exact UInt32.le_refl _
    · exact UInt32.le_of_lt hlt

/-- **No boundary separates a percentage from the checkpoint above it.** -/
theorem sameSide_of_isLeast (hh : h ≤ fullHp)
    (hc : IsLeast {c | c ∈ p.hpCheckpoints ∧ h ≤ c} c) (hb : b ∈ p.hpBoundaries) :
    SameSide h c b := by
  have hle : h ≤ c := hc.1.2
  have hfull : c ≤ fullHp := le_fullHp_of_mem_hpCheckpoints hc.1.1
  by_cases hbig : fullHp < b
  · -- no percentage reaches this boundary
    have hhb : h < b := UInt32.lt_of_le_of_lt hh hbig
    have hcb : c < b := UInt32.lt_of_le_of_lt hfull hbig
    exact ⟨iff_of_true hhb hcb, iff_of_false (UInt32.ne_of_lt hhb) (UInt32.ne_of_lt hcb)⟩
  · have hbfull : b ≤ fullHp := UInt32.not_lt.mp hbig
    by_cases hhb : h < b
    · -- the percentage just below the boundary is a checkpoint, so `c` stays below it
      have hne : b ≠ 0 := by
        rintro rfl
        exact UInt32.not_lt_zero hhb
      have hpos : (1 : UInt32) ≤ b := by
        rw [UInt32.lt_iff_toNat_lt] at hhb
        rw [UInt32.le_iff_toNat_le]
        show 1 ≤ _
        omega
      have hpred : (b - 1).toNat = b.toNat - 1 := UInt32.toNat_sub_of_le _ _ hpos
      have hbelow : h ≤ b - 1 := by
        rw [UInt32.lt_iff_toNat_lt] at hhb
        rw [UInt32.le_iff_toNat_le]
        omega
      have hcpred : c ≤ b - 1 := hc.2 ⟨pred_boundary_mem_hpCheckpoints hb hbfull hne, hbelow⟩
      have hcb : c < b := by
        rw [UInt32.le_iff_toNat_le] at hcpred
        rw [UInt32.lt_iff_toNat_lt] at hhb ⊢
        omega
      exact ⟨iff_of_true hhb hcb, iff_of_false (UInt32.ne_of_lt hhb) (UInt32.ne_of_lt hcb)⟩
    · have hbh : b ≤ h := UInt32.not_lt.mp hhb
      refine ⟨iff_of_false hhb (UInt32.not_lt.mpr (UInt32.le_trans hbh hle)), ?_⟩
      constructor
      · rintro rfl
        exact UInt32.le_antisymm
          (hc.2 ⟨boundary_mem_hpCheckpoints hb hbfull, UInt32.le_refl _⟩) hle
      · rintro rfl
        exact UInt32.le_antisymm hle hbh

/-- **The checkpoint above a percentage stands for it**: the walks tell the same, and the states
they leave differ in HP only. -/
theorem walk_at_checkpoint_above (p : Program) (s : BattleState) (hh : h ≤ fullHp) :
    ∃ c, IsLeast {c | c ∈ p.hpCheckpoints ∧ h ≤ c} c ∧
      (p.walk { s with hp := h }).1 = (p.walk { s with hp := c }).1 ∧
      (p.walk { s with hp := c }).2 = { (p.walk { s with hp := h }).2 with hp := c } := by
  obtain ⟨c, hc⟩ := p.exists_checkpoint_above hh
  exact ⟨c, hc, walk_at_sameSide (fun b hb => sameSide_of_isLeast hh hc hb) s⟩

/-- Below half HP the enemy enrages once; below a gate that no percentage closes it attacks. -/
def enrageBelowHalf : Program where
  nodes := #[
    .branchHp .less 50 3,
    .action (.mk 1 (.effect .dispel) none),
    .action (.mk 2 (.effect (.enrage 200 3)) (some ⟨100, 0, some 50, some 1⟩)),
    .action (.mk 3 (.effect (.gravity 25)) (some ⟨40, 0, some 250, none⟩))]
  staysWithin := by decide

theorem walk_at_checkpoint_above_of_enrageBelowHalf :
    (40 : UInt32) ≤ fullHp ∧
    ∃ c, IsLeast {c | c ∈ enrageBelowHalf.hpCheckpoints ∧ 40 ≤ c} c ∧
      (enrageBelowHalf.walk { BattleState.start 7 with hp := 40 }).1
        = (enrageBelowHalf.walk { BattleState.start 7 with hp := c }).1 ∧
      (enrageBelowHalf.walk { BattleState.start 7 with hp := c }).2
        = { (enrageBelowHalf.walk { BattleState.start 7 with hp := 40 }).2 with hp := c } :=
  ⟨by decide, walk_at_checkpoint_above enrageBelowHalf (.start 7) (by decide)⟩

end Program

end EnemyBehavior
