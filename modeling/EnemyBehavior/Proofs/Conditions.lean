import EnemyBehavior.Proofs.UnknownTypes

/-!
# Conditions of decoded actions

An action gets its condition at the top level only: from the two inputs of its record, which are
taken as percentages, and from two parameters that are gates if they are positive. Inside a skill
set no action has a condition, at any depth. A mask that is read from a record is never zero, so an
action that has one uses up a bit when it fires.

## Main statements

* `SkillRecord.condition?_eq_some_iff`, `SkillRecord.readFrom_of_condition?` — what the condition of
  a record says
* `SkillRecord.condition_of_kind?` — inside skill sets there are no conditions
* `SkillRecord.decode_eq_action_iff` — the records that become actions
* `SkillRecord.decoded_condition` — the conditions of a decoded action and of all it bundles
-/

namespace EnemyBehavior

/-! ## Parameters and percentages -/

theorem Params.positive?_eq_some_iff {ps : Params} {slot : Nat} {v : Int64} :
    ps.positive? slot = some v ↔ ps.value? slot = some v ∧ 0 < v := by
  simp [positive?, Option.filter_eq_some_iff]

theorem Params.positive?_eq_none_iff {ps : Params} {slot : Nat} :
    ps.positive? slot = none ↔ ∀ v, ps.value? slot = some v → v ≤ 0 := by
  simp [positive?, Option.filter_eq_none_iff]

theorem toNat_nearestPercent (v : Int64) :
    ((nearestPercent v).toNat : Int) = max 0 (min v.toInt 100) := by
  rw [nearestPercent, toNat_nearestUInt32]
  omega

theorem nearestPercent_le (v : Int64) : nearestPercent v ≤ 100 := by
  have h := toNat_nearestPercent v
  rw [UInt32.le_iff_toNat_le]
  show _ ≤ 100
  omega

/-- A positive word has the same value without its sign. -/
theorem toNat_toUInt64_of_pos {v : Int64} (h : 0 < v) : (v.toUInt64.toNat : Int) = v.toInt := by
  have hpos : 0 < v.toInt := Int64.lt_iff_toInt_lt.mp h
  rw [Int64.toNat_toUInt64_of_le (Int64.le_of_lt h)]
  exact Int.toNat_of_nonneg (Int.le_of_lt hpos)

/-! ## The condition of a record -/

/-- The condition says what the record does: its chances are the inputs as percentages, and its
gates are the two parameters, where they are positive. -/
structure Condition.ReadFrom (r : SkillRecord) (c : Condition) : Prop where
  triggerChance : ∃ ai, r.ai = some ai ∧ (c.triggerChance.toNat : Int) = max 0 (min ai.toInt 100)
  randomChance : ∃ rnd, r.rnd = some rnd ∧ (c.randomChance.toNat : Int) = max 0 (min rnd.toInt 100)
  chances_le : c.triggerChance ≤ 100 ∧ c.randomChance ≤ 100
  hpThreshold_none : c.hpThreshold = none ↔ ∀ v, r.params.value? 11 = some v → v ≤ 0
  hpThreshold_some : ∀ t, c.hpThreshold = some t →
    ∃ v, r.params.value? 11 = some v ∧ (t.toNat : Int) = min v.toInt 4294967295
  oneTime_none : c.oneTime = none ↔ ∀ v, r.params.value? 13 = some v → v ≤ 0
  oneTime_some : ∀ mask, c.oneTime = some mask →
    ∃ v, r.params.value? 13 = some v ∧ (mask.toNat : Int) = v.toInt ∧ mask ≠ 0

namespace SkillRecord

variable {r : SkillRecord} {a : Action} {c : Condition}

theorem condition?_eq_some_iff :
    r.condition? = some c ↔
      ∃ ai rnd, r.ai = some ai ∧ r.rnd = some rnd ∧
        c = ⟨nearestPercent ai, nearestPercent rnd,
          (r.params.positive? 11).map fun v => nearestUInt32 v.toInt,
          (r.params.positive? 13).map (·.toUInt64)⟩ := by
  unfold condition?
  cases r.ai <;> cases r.rnd <;> simp [hpThresholdSlot, oneTimeSlot, eq_comm]

/-- **What the condition of a record says.** -/
theorem readFrom_of_condition? (h : r.condition? = some c) : c.ReadFrom r := by
  obtain ⟨ai, rnd, hai, hrnd, rfl⟩ := condition?_eq_some_iff.mp h
  refine ⟨⟨ai, hai, toNat_nearestPercent ai⟩, ⟨rnd, hrnd, toNat_nearestPercent rnd⟩,
    ⟨nearestPercent_le ai, nearestPercent_le rnd⟩, ?_, ?_, ?_, ?_⟩
  · rw [Option.map_eq_none_iff, Params.positive?_eq_none_iff]
  · intro t ht
    obtain ⟨v, hv, rfl⟩ := Option.map_eq_some_iff.mp ht
    obtain ⟨hvalue, hpos⟩ := Params.positive?_eq_some_iff.mp hv
    have hsign : 0 < v.toInt := Int64.lt_iff_toInt_lt.mp hpos
    refine ⟨v, hvalue, ?_⟩
    rw [toNat_nearestUInt32]
    omega
  · rw [Option.map_eq_none_iff, Params.positive?_eq_none_iff]
  · intro mask hmask
    obtain ⟨v, hv, rfl⟩ := Option.map_eq_some_iff.mp hmask
    obtain ⟨hvalue, hpos⟩ := Params.positive?_eq_some_iff.mp hv
    have hsame := toNat_toUInt64_of_pos hpos
    have hsign : 0 < v.toInt := Int64.lt_iff_toInt_lt.mp hpos
    refine ⟨v, hvalue, hsame, fun hzero => ?_⟩
    rw [hzero] at hsame
    simp at hsame
    omega

end SkillRecord

/-! ## Inside skill sets -/

/-- The action is inside the skill set, at any depth. -/
inductive ActionKind.Bundles : ActionKind → Action → Prop where
  | sub {skills : List Action} {onDeath : Bool} {a : Action} :
    a ∈ skills → Bundles (.skillSet skills onDeath) a
  | deeper {skills : List Action} {onDeath : Bool} {a b : Action} :
    a ∈ skills → Bundles a.kind b → Bundles (.skillSet skills onDeath) b

theorem ActionKind.not_bundles_effect {e : Effect} {b : Action} :
    ¬(ActionKind.effect e).Bundles b := nofun

mutual

/-- **Inside skill sets there are no conditions**, at any depth. -/
theorem SkillRecord.condition_of_kind? : ∀ (r : SkillRecord) {kind : Option ActionKind},
    r.kind? = .ok kind →
      ∀ b, (kind.getD (.effect (.unknown r.skillType))).Bundles b → b.condition = none
  | ⟨skillId, skillType, ai, rnd, params, subSkills⟩, kind, h, b, hb => by
    rw [SkillRecord.kind?] at h
    split at h
    · obtain ⟨skills, hskills, hkind⟩ := bind_eq_ok_iff.mp h
      cases hkind
      have hall := SkillRecord.condition_of_actionsOf subSkills hskills
      cases hb with
      | sub hmem => exact (hall _ hmem).1
      | deeper hmem hbundles => exact (hall _ hmem).2 b hbundles
    · obtain ⟨effect, -, rfl⟩ := map_eq_ok_iff.mp (mapError_eq_ok_iff.mp h)
      cases effect <;> exact absurd hb ActionKind.not_bundles_effect
termination_by structural r => r

theorem SkillRecord.condition_of_actionsOf : ∀ (rs : List SkillRecord) {actions : List Action},
    SkillRecord.actionsOf rs = .ok actions →
      ∀ a ∈ actions, a.condition = none ∧ ∀ b, a.kind.Bundles b → b.condition = none
  | [], actions, h => by
    cases h
    simp
  | r :: rs, actions, h => by
    rw [SkillRecord.actionsOf] at h
    obtain ⟨kind, hkind, h⟩ := bind_eq_ok_iff.mp h
    obtain ⟨rest, hrest, hactions⟩ := bind_eq_ok_iff.mp h
    cases hactions
    refine List.forall_mem_cons.mpr ⟨⟨rfl, r.condition_of_kind? hkind⟩, ?_⟩
    exact SkillRecord.condition_of_actionsOf rs hrest
termination_by structural rs => rs

end

/-! ## Decoded actions -/

namespace SkillRecord

variable {r : SkillRecord} {a : Action}

/-- **The records that become actions**, and the actions they become. -/
theorem decode_eq_action_iff :
    r.decode = .ok (.action a) ↔ r.logicRule? = none ∧ r.action = .ok a := by
  cases hrule : r.logicRule? with
  | some rule =>
    rw [decode_of_rule hrule]
    refine iff_of_false (fun h => ?_) nofun
    have hlogic : rule.IsLogic := LogicRule.isLogic_of_mem _ (mem_of_lookup_eq_some hrule)
    have haction := hlogic.action?_eq_none (mapError_eq_ok_iff.mp h)
    cases haction
  | none =>
    rw [decode_of_no_rule hrule, map_eq_ok_iff, and_iff_right rfl]
    exact ⟨fun ⟨b, hb, heq⟩ => Node.action.inj heq ▸ hb, fun h => ⟨a, h, rfl⟩⟩

/-- **The conditions of a decoded action**, and of all it bundles. It has one if it is no trait and
its record has both inputs; the condition says what the record does; and what is inside a skill set
has none. -/
theorem decoded_condition (h : r.decode = .ok (.action a)) :
    ((∃ c, a.condition = some c) ↔
        a.isPassive = false ∧ (∃ ai, r.ai = some ai) ∧ ∃ rnd, r.rnd = some rnd) ∧
      (∀ c, a.condition = some c → c.ReadFrom r) ∧
      ∀ b, a.kind.Bundles b → b.condition = none := by
  obtain ⟨kind, hkind, rfl⟩ := action_eq_ok_iff.mp (decode_eq_action_iff.mp h).2
  have hinside := r.condition_of_kind? hkind
  -- from here on it matters only whether the kind is a trait
  generalize kind.getD (.effect (.unknown r.skillType)) = kind at hinside ⊢
  simp only [Action.condition, Action.isPassive, Action.kind]
  cases hpassive : kind.isPassive with
  | true => exact ⟨by simp, by simp, hinside⟩
  | false =>
    refine ⟨?_, fun c hc => readFrom_of_condition? (by simpa using hc), hinside⟩
    cases hai : r.ai <;> cases hrnd : r.rnd <;> simp [condition?, hai, hrnd]

/-- A skill set below a gate that no percentage closes, with a mask, and with records inside whose
inputs and gates count for nothing. -/
def gatedSet : SkillRecord :=
  ⟨7, 83, some 140, some (-3),
    List.replicate 11 none ++ [some 5000000000, none, some 6],
    [⟨8, 6, some 50, some 50, [], []⟩,
      ⟨9, 95, none, none, [], [⟨10, 6, some 50, some 50, [], []⟩]⟩]⟩

/-- Its action. -/
def gatedSetAction : Action :=
  .mk 7 (.skillSet [.mk 8 (.effect .dispel) none,
      .mk 9 (.skillSet [.mk 10 (.effect .dispel) none] true) none] false)
    (some ⟨100, 0, some 4294967295, some 6⟩)

theorem decoded_condition_of_gatedSet :
    gatedSet.decode = .ok (.action gatedSetAction) ∧
      (∀ c, gatedSetAction.condition = some c → c.ReadFrom gatedSet) ∧
      ∀ b, gatedSetAction.kind.Bundles b → b.condition = none := by
  have hdecode : gatedSet.decode = .ok (.action gatedSetAction) := by decide
  obtain ⟨-, hread, hinside⟩ := decoded_condition hdecode
  exact ⟨hdecode, hread, hinside⟩

end SkillRecord

end EnemyBehavior
