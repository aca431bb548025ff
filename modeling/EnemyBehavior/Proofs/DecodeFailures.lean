import EnemyBehavior.Proofs.UnknownTypes

/-!
# When decoding fails

A record is refused only if its own type is a logic type and an input that the type needs is
missing or negative. The first such input is named, `ai` before `rnd`. What a skill set bundles is
decoded without refusing anything, so a sub-skill is never the reason.

Decoding breaks off only for two effects that do arithmetic on a parameter, wherever the record of
such an effect is reached through skill sets.

## Main statements

* `LogicRule.apply_refusedFor` — a rule refuses a record for the first input not as it must be
* `needs_of_lookup` — what the rules need, type by type
* `exists_effect?_iff`, `SkillRecord.exists_kind?_iff` — when an effect or a kind can be made
* `SkillRecord.actionsOf_ne_defect` — sub-skills are never refused
* `SkillRecord.decode_fails_iff` — when decoding fails
-/

namespace EnemyBehavior

/-! ## Inputs that a type needs -/

/-- What is asked of an input of a record. -/
inductive InputNeed where
  | present (field : RecordField)
  | nonNegative (field : RecordField)
deriving DecidableEq

/-- What a skill type needs, in the order of the checks. -/
def neededInputs : (skillType : Nat) → List InputNeed
  | 22 | 24 | 44 | 45 => [.nonNegative .ai]
  | 23 | 28 | 29 | 33 | 34 | 35 | 43 | 113 | 120 => [.nonNegative .ai, .nonNegative .rnd]
  | 30 | 31 | 32 => [.present .ai, .nonNegative .rnd]
  | 38 => [.present .ai, .present .rnd]
  | 25 => [.present .ai]
  | 90 => [.nonNegative .rnd]
  | _ => []

namespace SkillRecord

variable {r : SkillRecord} {needs needs' : List InputNeed} {α β : Type}

/-- The record has what is asked. -/
def Meets (r : SkillRecord) : InputNeed → Prop
  | .present field => ∃ value, r.input field = some value
  | .nonNegative field => ∃ value, r.input field = some value ∧ 0 ≤ value

/-- How a record that does not have what is asked is refused. -/
def refusal? (r : SkillRecord) : InputNeed → Option RecordError
  | .present field =>
    match r.input field with
    | some _ => none
    | none => some (.missingField r.skillId r.skillType field)
  | .nonNegative field =>
    match r.input field with
    | some value =>
      if 0 ≤ value then none else some (.invalidValue r.skillId r.skillType field value)
    | none => some (.missingField r.skillId r.skillType field)

theorem refusal?_eq_none_iff {need : InputNeed} : r.refusal? need = none ↔ r.Meets need := by
  cases need with
  | present field | nonNegative field => cases h : r.input field <;> simp [refusal?, Meets, h]

/-- The step refuses the record for the first of the needs that it does not meet, and for nothing
else. -/
def RefusedFor (r : SkillRecord) (needs : List InputNeed) (step : Except RecordError α) : Prop :=
  ∀ e, step = .error e ↔ needs.findSome? r.refusal? = some e

theorem RefusedFor.ok (a : α) : r.RefusedFor [] (.ok a) := fun _ => ⟨nofun, nofun⟩

/-- Steps one after another ask for what each of them needs. -/
theorem RefusedFor.bind {step : Except RecordError α} {next : α → Except RecordError β}
    (h : r.RefusedFor needs step) (hnext : ∀ a, r.RefusedFor needs' (next a)) :
    r.RefusedFor (needs ++ needs') (step >>= next) := by
  intro e
  rw [List.findSome?_append]
  cases hstep : step with
  | error e' =>
    rw [(h e').mp hstep]
    exact ⟨fun heq => congrArg some (Except.error.inj heq),
      fun heq => congrArg Except.error (Option.some.inj heq)⟩
  | ok a =>
    -- the first step went through, so none of its needs is the reason
    have hnone : needs.findSome? r.refusal? = none := by
      rw [Option.eq_none_iff_forall_ne_some]
      intro e' he'
      rw [(h e').mpr he'] at hstep
      cases hstep
    rw [hnone]
    exact hnext a e

theorem refusedFor_required (r : SkillRecord) (field : RecordField) :
    r.RefusedFor [.present field] (r.required field) := by
  intro e
  cases h : r.input field <;> simp [required, refusal?, h]

theorem refusedFor_nonNegative (r : SkillRecord) (field : RecordField) :
    r.RefusedFor [.nonNegative field] (r.nonNegative field) := by
  intro e
  cases h : r.input field with
  | none => simp [nonNegative, required, refusal?, h, bind, Except.bind]
  | some value =>
    by_cases hsign : 0 ≤ value <;>
      simp [nonNegative, required, refusal?, h, hsign, bind, Except.bind, pure, Except.pure, throw,
        throwThe, MonadExceptOf.throw]

end SkillRecord

namespace LogicRule

/-- What the rule needs, in the order of the checks. -/
def needs : LogicRule → List InputNeed
  | constant _ | ofParams _ => []
  | ofMask _ => [.nonNegative .ai]
  | ofValue _ => [.present .ai]
  | ofValues _ => [.present .ai, .present .rnd]
  | ofMaskAndTarget _ => [.nonNegative .ai, .nonNegative .rnd]
  | ofValueAndTarget _ => [.present .ai, .nonNegative .rnd]
  | ofParamsAndTarget _ => [.nonNegative .rnd]

/-- **A rule refuses a record for the first input that is not as it must be.** -/
theorem apply_refusedFor (rule : LogicRule) (r : SkillRecord) :
    r.RefusedFor rule.needs (rule.apply r) := by
  cases rule with
  | constant node => exact .ok node
  | ofParams make => exact .ok (make r.params)
  | ofMask make => exact (r.refusedFor_nonNegative .ai).bind fun mask => .ok (make mask)
  | ofValue make => exact (r.refusedFor_required .ai).bind fun value => .ok (make value)
  | ofValues make =>
    exact (r.refusedFor_required .ai).bind fun ai =>
      (r.refusedFor_required .rnd).bind fun rnd => .ok (make ai rnd)
  | ofMaskAndTarget make =>
    exact (r.refusedFor_nonNegative .ai).bind fun mask =>
      (r.refusedFor_nonNegative .rnd).bind fun target => .ok (make mask target)
  | ofValueAndTarget make =>
    exact (r.refusedFor_required .ai).bind fun value =>
      (r.refusedFor_nonNegative .rnd).bind fun target => .ok (make value target)
  | ofParamsAndTarget make =>
    exact (r.refusedFor_nonNegative .rnd).bind fun target => .ok (make r.params target)

end LogicRule

/-- **What the rules need, type by type.** -/
theorem needs_of_lookup (skillType : Nat) :
    ((logicRules.lookup skillType).map LogicRule.needs).getD [] = neededInputs skillType := by
  cases h : logicRules.lookup skillType with
  | some rule =>
    have hall : ∀ entry ∈ logicRules, entry.2.needs = neededInputs entry.1 := by decide
    exact hall _ (mem_of_lookup_eq_some h)
  | none =>
    -- the table has an entry for every type that needs an input
    unfold neededInputs
    split
    all_goals try cases h
    rfl

/-! ## Effects that overflow -/

/-- Arithmetic on the parameters overflows: the multiplier of an enrage is 100 too large for a word,
or the move time of a debuff has no opposite. -/
def ParamsOverflow (skillType : Nat) (ps : Params) : Prop :=
  (skillType = 8 ∧ ∃ v, ps.value? 1 = some v ∧ 9223372036854775808 - 101 < v.toInt) ∨
    (skillType = 39 ∧ ∃ v, ps.value? 2 = some v ∧ v.toInt = -9223372036854775808)

theorem exists_effect?_enrage {ps : Params} :
    (∃ effect, effect? 8 ps = .ok effect) ↔
      ∀ v, ps.value? 1 = some v → v.toInt ≤ 9223372036854775808 - 101 := by
  have hrule : effect? 8 ps
      = ((checkedAdd 100 (ps.value 1)).map (Effect.enrage · 0)).map some := rfl
  have hundred : (100 : Int64).toInt = 100 := rfl
  rw [hrule, exists_map_iff, exists_map_iff, checkedAdd, exists_exactInt64_iff, hundred]
  unfold FitsInt64 Params.value
  cases ps.value? 1 with
  | none => simp
  | some v =>
    have hfits := fitsInt64_toInt v
    unfold FitsInt64 at hfits
    simp only [Option.getD_some, Option.some.injEq, forall_eq']
    omega

theorem exists_effect?_moveTime {ps : Params} :
    (∃ effect, effect? 39 ps = .ok effect) ↔
      ∀ v, ps.value? 2 = some v → v.toInt ≠ -9223372036854775808 := by
  have hrule : effect? 39 ps = Except.map some (match ps.value? 2 with
    | some tenths => (checkedNeg tenths).map (.debuff .moveTimeFlat · (ps.value 1))
    | none => .ok (.debuff .moveTimePercent (ps.value 3) (ps.value 1))) := rfl
  rw [hrule, exists_map_iff]
  cases ps.value? 2 with
  | none => simp
  | some v =>
    have hfits := fitsInt64_toInt v
    unfold FitsInt64 at hfits
    simp only [exists_map_iff, checkedNeg, exists_exactInt64_iff, FitsInt64, Option.some.injEq,
      forall_eq']
    omega

/-- Rules that do arithmetic. -/
def EffectRule.isChecked : EffectRule → Bool
  | plain _ => false
  | checked _ => true

theorem isChecked_of_mem : ∀ entry ∈ effectRules, entry.1 ≠ 8 → entry.1 ≠ 39 →
    entry.2.isChecked = false := by
  decide

theorem exists_effect?_of_ne {skillType : Nat} {ps : Params} (h8 : skillType ≠ 8)
    (h39 : skillType ≠ 39) : ∃ effect, effect? skillType ps = .ok effect := by
  unfold effect?
  cases hrule : effectRules.lookup skillType with
  | none => exact ⟨none, rfl⟩
  | some rule =>
    have hplain := isChecked_of_mem _ (mem_of_lookup_eq_some hrule) h8 h39
    cases rule with
    | plain make => exact ⟨_, rfl⟩
    | checked make => cases hplain

/-- **When an effect can be made.** -/
theorem exists_effect?_iff {skillType : Nat} {ps : Params} :
    (∃ effect, effect? skillType ps = .ok effect) ↔ ¬ParamsOverflow skillType ps := by
  by_cases h8 : skillType = 8
  · subst h8
    simp [exists_effect?_enrage, ParamsOverflow]
  · by_cases h39 : skillType = 39
    · subst h39
      simp [exists_effect?_moveTime, ParamsOverflow]
    · exact iff_of_true (exists_effect?_of_ne h8 h39) (by simp [ParamsOverflow, h8, h39])

/-! ## Records that overflow -/

namespace SkillRecord

variable {r q : SkillRecord}

/-- Arithmetic on the parameters of the record itself overflows. -/
def Overflows (r : SkillRecord) : Prop := ParamsOverflow r.skillType.toNat r.params

/-- Arithmetic overflows in the record or in one that it bundles. -/
def MeetsOverflow (r : SkillRecord) : Prop := r.Overflows ∨ ∃ q, r.Bundles q ∧ q.Overflows

/-- Arithmetic overflows in a skill set if it does in one of its sub-skills. -/
theorem meetsOverflow_of_isSkillSet (h : r.isSkillSet = true) :
    r.MeetsOverflow ↔ ∃ q ∈ r.subSkills, q.MeetsOverflow := by
  have htype := toNat_skillType_of_isSkillSet h
  have hown : ¬r.Overflows := by
    rintro (⟨h8, -⟩ | ⟨h39, -⟩) <;> omega
  rw [MeetsOverflow, or_iff_right hown, exists_bundles_iff h]
  rfl

theorem meetsOverflow_of_not_isSkillSet (h : r.isSkillSet = false) :
    r.MeetsOverflow ↔ r.Overflows :=
  or_iff_left fun ⟨_, hbundles, _⟩ => not_bundles h hbundles

end SkillRecord

mutual

/-- **Finding out what an action does refuses nothing**, at any depth. -/
theorem SkillRecord.kind?_ne_defect : ∀ (r : SkillRecord) (e : RecordError),
    r.kind? ≠ .error (.defect e)
  | ⟨skillId, skillType, ai, rnd, params, subSkills⟩, e => by
    rw [SkillRecord.kind?]
    split
    · intro h
      rcases bind_eq_error_iff.mp h with h | ⟨skills, -, h⟩
      · exact SkillRecord.actionsOf_ne_defect subSkills e h
      · cases h
    · intro h
      obtain ⟨cause, -, h⟩ := mapError_eq_error_iff.mp h
      cases h
termination_by structural r => r

theorem SkillRecord.actionsOf_ne_defect : ∀ (rs : List SkillRecord) (e : RecordError),
    SkillRecord.actionsOf rs ≠ .error (.defect e)
  | [], e => nofun
  | r :: rs, e => by
    rw [SkillRecord.actionsOf]
    intro h
    rcases bind_eq_error_iff.mp h with h | ⟨kind, -, h⟩
    · exact r.kind?_ne_defect e h
    · rcases bind_eq_error_iff.mp h with h | ⟨actions, -, h⟩
      · exact SkillRecord.actionsOf_ne_defect rs e h
      · cases h
termination_by structural rs => rs

end

mutual

/-- **When a record has a kind**: if nothing in it overflows. -/
theorem SkillRecord.exists_kind?_iff : ∀ r : SkillRecord,
    (∃ kind, r.kind? = .ok kind) ↔ ¬r.MeetsOverflow
  | ⟨skillId, skillType, ai, rnd, params, subSkills⟩ => by
    rw [SkillRecord.kind?]
    split
    · next hset =>
      rw [SkillRecord.meetsOverflow_of_isSkillSet (decide_eq_true hset),
        ← SkillRecord.exists_actionsOf_iff subSkills, exists_bind_iff]
      exact exists_congr fun skills => and_iff_left ⟨_, rfl⟩
    · next hset =>
      rw [SkillRecord.meetsOverflow_of_not_isSkillSet (decide_eq_false hset)]
      simp only [mapError_eq_ok_iff]
      rw [exists_map_iff]
      exact exists_effect?_iff
termination_by structural r => r

theorem SkillRecord.exists_actionsOf_iff : ∀ rs : List SkillRecord,
    (∃ actions, SkillRecord.actionsOf rs = .ok actions) ↔ ¬∃ r ∈ rs, r.MeetsOverflow
  | [] => iff_of_true ⟨[], rfl⟩ (by simp)
  | r :: rs => by
    rw [SkillRecord.actionsOf, List.exists_mem_cons_iff, not_or, ← r.exists_kind?_iff,
      ← SkillRecord.exists_actionsOf_iff rs, exists_bind_iff]
    constructor
    · rintro ⟨kind, hkind, hrest⟩
      obtain ⟨actions, hactions, -⟩ := exists_bind_iff.mp hrest
      exact ⟨⟨kind, hkind⟩, actions, hactions⟩
    · rintro ⟨⟨kind, hkind⟩, actions, hactions⟩
      exact ⟨kind, hkind, exists_bind_iff.mpr ⟨actions, hactions, _, rfl⟩⟩
termination_by structural rs => rs

end

/-! ## Decoding -/

namespace SkillRecord

variable {r : SkillRecord}

theorem action_ne_defect (r : SkillRecord) (e : RecordError) : r.action ≠ .error (.defect e) := by
  intro h
  rcases bind_eq_error_iff.mp h with h | ⟨kind, -, h⟩
  · exact r.kind?_ne_defect e h
  · cases h

/-- A record is refused by the rule of its type, for what the type needs. -/
theorem decode_eq_defect_iff {e : RecordError} :
    r.decode = .error (.defect e) ↔
      (neededInputs r.skillType.toNat).findSome? r.refusal? = some e := by
  rw [← needs_of_lookup]
  show _ ↔ ((r.logicRule?.map LogicRule.needs).getD []).findSome? _ = _
  cases hrule : r.logicRule? with
  | none =>
    rw [decode_of_no_rule hrule, map_eq_error_iff]
    exact iff_of_false (r.action_ne_defect e) nofun
  | some rule =>
    rw [decode_of_rule hrule, Option.map_some, Option.getD_some, ← rule.apply_refusedFor r e]
    simp [mapError_eq_error_iff]

/-- Logic types do no arithmetic and bundle nothing. -/
theorem not_meetsOverflow_of_logicRule? {rule : LogicRule} (h : r.logicRule? = some rule) :
    ¬r.MeetsOverflow := by
  have hset : r.isSkillSet = false := by
    rw [← Bool.not_eq_true]
    intro hset
    rw [logicRule?_of_isSkillSet hset] at h
    cases h
  rw [meetsOverflow_of_not_isSkillSet hset]
  unfold logicRule? at h
  rintro (⟨ht, -⟩ | ⟨ht, -⟩)
  · rw [ht] at h
    cases h
  · rw [ht] at h
    cases h

/-- Nothing is refused in making an action, so it fails by overflow alone. -/
theorem exists_action_eq_overflow_iff :
    (∃ cause, r.action = .error (.overflow cause)) ↔ r.MeetsOverflow := by
  have hok : (∃ action, r.action = .ok action) ↔ ¬r.MeetsOverflow := by
    rw [← r.exists_kind?_iff, action, exists_bind_iff]
    exact exists_congr fun kind => and_iff_left ⟨_, rfl⟩
  rw [← not_iff_not, ← hok]
  cases h : r.action with
  | ok a => simp
  | error failure =>
    cases failure with
    | defect e => exact absurd h (r.action_ne_defect e)
    | overflow cause => simp

theorem exists_decode_eq_overflow_iff :
    (∃ cause, r.decode = .error (.overflow cause)) ↔ r.MeetsOverflow := by
  cases hrule : r.logicRule? with
  | some rule =>
    rw [decode_of_rule hrule]
    refine iff_of_false ?_ (not_meetsOverflow_of_logicRule? hrule)
    simp [mapError_eq_error_iff]
  | none =>
    simp only [decode_of_no_rule hrule, map_eq_error_iff]
    exact exists_action_eq_overflow_iff

/-- **When decoding fails.** A record is refused if its own type needs an input that is missing, or
negative where it must not be, and the first such input is named; sub-skills are never refused, and
make no difference to that. Decoding breaks off if arithmetic overflows in the record or in one that
it bundles. -/
theorem decode_fails_iff (r : SkillRecord) :
    ((∃ e, r.decode = .error (.defect e)) ↔
        ∃ need ∈ neededInputs r.skillType.toNat, ¬r.Meets need) ∧
      (∀ e, r.decode = .error (.defect e) ↔
        (neededInputs r.skillType.toNat).findSome? r.refusal? = some e) ∧
      (∀ subSkills e, actionsOf subSkills ≠ .error (.defect e) ∧
        ({ r with subSkills }.decode = .error (.defect e) ↔ r.decode = .error (.defect e))) ∧
      ((∃ cause, r.decode = .error (.overflow cause)) ↔
        r.Overflows ∨ ∃ q, r.Bundles q ∧ q.Overflows) := by
  refine ⟨?_, fun e => decode_eq_defect_iff, fun subSkills e => ?_, exists_decode_eq_overflow_iff⟩
  · simp only [decode_eq_defect_iff, ← Option.isSome_iff_exists, List.findSome?_isSome_iff]
    refine exists_congr fun need => and_congr_right fun _ => ?_
    rw [Option.isSome_iff_ne_none, Ne, refusal?_eq_none_iff]
  · refine ⟨actionsOf_ne_defect subSkills e, ?_⟩
    rw [decode_eq_defect_iff, decode_eq_defect_iff]
    rfl

end SkillRecord

end EnemyBehavior
