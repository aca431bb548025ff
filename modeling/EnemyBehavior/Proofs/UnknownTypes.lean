import EnemyBehavior.Proofs.Phases
import EnemyBehavior.Record.Decode
import Mathlib.Data.List.Forall2

/-!
# Unknown skill types

A skill type that no rule covers is reported, and none besides: at the top level the types that are
neither logic nor action types, and among the records that skill sets bundle, at any depth, the
types that are no action types. The sub-skills of other records are never looked at.

Decoding recurses over sub-skills, and unknown types are collected over the skill sets that it
makes. `SkillRecord.HasUnknown` says of a record what is to be found in its action, and refers to
neither recursion.

## Main statements

* `decodeBehavior_eq_ok_iff` — records are decoded one by one
* `SkillRecord.mem_unknownTypes_of_kind?` — the unknown types in the action of a record
* `SkillRecord.mem_unknownTypes_of_decode` — and in its node
* `Program.unknown_types_reported` — the unknown types that are reported of an enemy
-/

namespace EnemyBehavior

/-! ## One by one -/

/-- **Records are decoded one by one.** -/
theorem decodeBehavior_eq_ok_iff {records : List SkillRecord} {nodes : List Node} :
    decodeBehavior records = .ok nodes ↔
      List.Forall₂ (fun r node => r.decode = .ok node) records nodes := by
  unfold decodeBehavior
  induction records generalizing nodes with
  | nil =>
    rw [List.mapM_nil, List.forall₂_nil_left_iff]
    exact ⟨fun h => (Except.ok.inj h).symm, fun h => h ▸ rfl⟩
  | cons r records ih =>
    simp only [List.mapM_cons, List.forall₂_cons_left_iff, bind_eq_ok_iff, ih]
    constructor
    · rintro ⟨node, hnode, rest, hrest, heq⟩
      exact ⟨node, rest, hnode, hrest, (Except.ok.inj heq).symm⟩
    · rintro ⟨node, rest, hnode, hrest, rfl⟩
      exact ⟨node, hnode, rest, hrest, rfl⟩

/-! ## Known rules -/

theorem mem_of_lookup_eq_some {β : Type} {k : Nat} {b : β} {entries : List (Nat × β)}
    (h : entries.lookup k = some b) : (k, b) ∈ entries := by
  obtain ⟨before, after, rfl, -⟩ := List.lookup_eq_some_iff.mp h
  exact List.mem_append_right _ List.mem_cons_self

namespace EffectRule

/-- The rule makes effects of known type only. -/
def IsKnown : EffectRule → Prop
  | plain make => ∀ ps, (ActionKind.effect (make ps)).unknownTypes = []
  | checked make => ∀ ps e, make ps = .ok e → (ActionKind.effect e).unknownTypes = []

theorem IsKnown.unknownTypes {rule : EffectRule} (h : rule.IsKnown) {ps : Params} {e : Effect}
    (happly : rule.apply ps = .ok e) : (ActionKind.effect e).unknownTypes = [] := by
  cases rule with
  | plain make =>
    cases happly
    exact h ps
  | checked make => exact h ps e happly

theorem isKnown_enrageRule : enrageRule.IsKnown := by
  intro ps
  dsimp only
  split <;> rfl

/-- **No rule makes an effect of unknown type.** -/
theorem isKnown_of_mem : ∀ entry ∈ effectRules, entry.2.IsKnown := by
  unfold effectRules
  simp only [List.forall_mem_cons]
  repeat' apply And.intro
  -- most rules name their effect outright; the others come in the order of the table
  all_goals try exact fun _ => rfl
  · intro ps e h
    obtain ⟨_, -, rfl⟩ := map_eq_ok_iff.mp h
    rfl
  · exact isKnown_enrageRule
  · exact isKnown_enrageRule
  · exact isKnown_enrageRule
  · intro ps e h
    dsimp only at h
    split at h
    · obtain ⟨_, -, rfl⟩ := map_eq_ok_iff.mp h
      rfl
    · cases h
      rfl
  · intro ps
    dsimp only
    split <;> rfl
  · exact List.forall_mem_nil _

end EffectRule

namespace LogicRule

/-- The rule makes nodes without an action. -/
def IsLogic : LogicRule → Prop
  | constant node => node.action? = none
  | ofParams make => ∀ ps, (make ps).action? = none
  | ofMask make => ∀ mask, (make mask).action? = none
  | ofValue make => ∀ value, (make value).action? = none
  | ofValues make => ∀ ai rnd, (make ai rnd).action? = none
  | ofMaskAndTarget make => ∀ mask target, (make mask target).action? = none
  | ofValueAndTarget make => ∀ value target, (make value target).action? = none
  | ofParamsAndTarget make => ∀ ps target, (make ps target).action? = none

/-- **No logic rule makes an action.** -/
theorem isLogic_of_mem : ∀ entry ∈ logicRules, entry.2.IsLogic := by
  simp [logicRules, IsLogic, Node.action?]

theorem IsLogic.action?_eq_none {rule : LogicRule} (h : rule.IsLogic) {r : SkillRecord}
    {node : Node} (happly : rule.apply r = .ok node) : node.action? = none := by
  cases rule with
  | constant node =>
    cases happly
    exact h
  | ofParams make =>
    cases happly
    exact h r.params
  | ofMask make | ofValue make =>
    obtain ⟨x, -, hmake⟩ := bind_eq_ok_iff.mp happly
    cases hmake
    exact h x
  | ofParamsAndTarget make =>
    obtain ⟨target, -, hmake⟩ := bind_eq_ok_iff.mp happly
    cases hmake
    exact h r.params target
  | ofValues make | ofMaskAndTarget make | ofValueAndTarget make =>
    obtain ⟨x, -, happly⟩ := bind_eq_ok_iff.mp happly
    obtain ⟨y, -, hmake⟩ := bind_eq_ok_iff.mp happly
    cases hmake
    exact h x y

end LogicRule

/-! ## Records -/

namespace SkillRecord

variable {r q : SkillRecord} {t : UInt32}

/-- The record bundles its sub-skills. -/
def isSkillSet (r : SkillRecord) : Bool := r.skillType.toNat ∈ skillSetTypes

/-- The type of the record is that of an action. -/
def isAction (r : SkillRecord) : Bool :=
  r.isSkillSet || (effectRules.lookup r.skillType.toNat).isSome

/-- The second record is inside the sub-skills of the first, and is reached through skill sets
only. -/
inductive Bundles : SkillRecord → SkillRecord → Prop where
  | sub {r q : SkillRecord} : r.isSkillSet = true → q ∈ r.subSkills → Bundles r q
  | deeper {r q q' : SkillRecord} :
    r.isSkillSet = true → q ∈ r.subSkills → Bundles q q' → Bundles r q'

/-- The record, or one that it bundles, is of type `t`, and `t` is no type of action. -/
def HasUnknown (r : SkillRecord) (t : UInt32) : Prop :=
  (r.isAction = false ∧ r.skillType = t) ∨
    ∃ q, r.Bundles q ∧ q.isAction = false ∧ q.skillType = t

theorem Bundles.isSkillSet (h : r.Bundles q) : r.isSkillSet = true := by
  cases h with
  | sub hset _ => exact hset
  | deeper hset _ _ => exact hset

theorem not_bundles (h : r.isSkillSet = false) : ¬r.Bundles q := by
  intro hbundles
  rw [hbundles.isSkillSet] at h
  cases h

/-- A skill set bundles its sub-skills and what they bundle. -/
theorem exists_bundles_iff {P : SkillRecord → Prop} (h : r.isSkillSet = true) :
    (∃ q, r.Bundles q ∧ P q) ↔ ∃ q ∈ r.subSkills, P q ∨ ∃ q', q.Bundles q' ∧ P q' := by
  constructor
  · rintro ⟨q', hbundles, hP⟩
    cases hbundles with
    | sub _ hq => exact ⟨q', hq, .inl hP⟩
    | deeper _ hq hbundles => exact ⟨_, hq, .inr ⟨q', hbundles, hP⟩⟩
  · rintro ⟨q, hq, hP | ⟨q', hbundles, hP⟩⟩
    · exact ⟨q, .sub h hq, hP⟩
    · exact ⟨q', .deeper h hq hbundles, hP⟩

theorem toNat_skillType_of_isSkillSet (h : r.isSkillSet = true) :
    r.skillType.toNat = 83 ∨ r.skillType.toNat = 95 := by
  simpa [isSkillSet, skillSetTypes, deathSkillSetType] using h

/-- A skill set has what its sub-skills have. -/
theorem hasUnknown_of_isSkillSet (h : r.isSkillSet = true) :
    r.HasUnknown t ↔ ∃ q ∈ r.subSkills, q.HasUnknown t := by
  have hown : ¬(r.isAction = false ∧ r.skillType = t) := by
    rintro ⟨hnot, -⟩
    rw [isAction, h] at hnot
    cases hnot
  rw [HasUnknown, or_iff_right hown, exists_bundles_iff h]
  rfl

/-- What is no skill set has no more than its own type. -/
theorem hasUnknown_of_not_isSkillSet (h : r.isSkillSet = false) :
    r.HasUnknown t ↔ effectRules.lookup r.skillType.toNat = none ∧ r.skillType = t := by
  have hnone : ¬∃ q, r.Bundles q ∧ q.isAction = false ∧ q.skillType = t :=
    fun ⟨q, hbundles, _⟩ => not_bundles h hbundles
  rw [HasUnknown, or_iff_left hnone, isAction, h, Bool.false_or, Option.isSome_eq_false_iff,
    Option.isNone_iff_eq_none]

end SkillRecord

/-! ## Unknown types in decoded records -/

theorem effect?_cases {skillType : Nat} {ps : Params} {effect : Option Effect}
    (h : effect? skillType ps = .ok effect) :
    (effectRules.lookup skillType = none ∧ effect = none) ∨
      effectRules.lookup skillType ≠ none ∧
        ∃ e, effect = some e ∧ (ActionKind.effect e).unknownTypes = [] := by
  unfold effect? at h
  cases hrule : effectRules.lookup skillType with
  | none =>
    rw [hrule] at h
    exact .inl ⟨rfl, (Except.ok.inj h).symm⟩
  | some rule =>
    rw [hrule] at h
    obtain ⟨e, happly, rfl⟩ := map_eq_ok_iff.mp h
    have hknown : rule.IsKnown := EffectRule.isKnown_of_mem _ (mem_of_lookup_eq_some hrule)
    exact .inr ⟨nofun, e, rfl, hknown.unknownTypes happly⟩

mutual

/-- **The unknown types in the action of a record**, whatever its kind. -/
theorem SkillRecord.mem_unknownTypes_of_kind? : ∀ (r : SkillRecord) {kind : Option ActionKind}
    {t : UInt32}, r.kind? = .ok kind →
      (t ∈ (kind.getD (.effect (.unknown r.skillType))).unknownTypes ↔ r.HasUnknown t)
  | ⟨skillId, skillType, ai, rnd, params, subSkills⟩, kind, t, h => by
    rw [SkillRecord.kind?] at h
    split at h
    · next hset =>
      have hskillSet :
          (SkillRecord.mk skillId skillType ai rnd params subSkills).isSkillSet = true :=
        decide_eq_true hset
      obtain ⟨skills, hskills, hkind⟩ := bind_eq_ok_iff.mp h
      cases hkind
      rw [SkillRecord.hasUnknown_of_isSkillSet hskillSet]
      exact SkillRecord.mem_unknownTypes_of_actionsOf subSkills hskills
    · next hset =>
      have hskillSet :
          (SkillRecord.mk skillId skillType ai rnd params subSkills).isSkillSet = false :=
        decide_eq_false hset
      rw [SkillRecord.hasUnknown_of_not_isSkillSet hskillSet]
      obtain ⟨effect, heffect, rfl⟩ := map_eq_ok_iff.mp (mapError_eq_ok_iff.mp h)
      rcases effect?_cases heffect with ⟨hnone, rfl⟩ | ⟨hsome, e, rfl, hknown⟩
      · -- no rule covers the type, so it is unknown itself
        rw [and_iff_right hnone, eq_comm]
        exact List.mem_singleton
      · rw [Option.map_some, Option.getD_some, hknown]
        exact ⟨nofun, fun h => absurd h.1 hsome⟩
termination_by structural r => r

theorem SkillRecord.mem_unknownTypes_of_actionsOf : ∀ (rs : List SkillRecord)
    {actions : List Action} {t : UInt32}, SkillRecord.actionsOf rs = .ok actions →
      (t ∈ Action.unknownTypesOfList actions ↔ ∃ r ∈ rs, r.HasUnknown t)
  | [], actions, t, h => by
    cases h
    simp [Action.unknownTypesOfList]
  | r :: rs, actions, t, h => by
    rw [SkillRecord.actionsOf] at h
    obtain ⟨kind, hkind, h⟩ := bind_eq_ok_iff.mp h
    obtain ⟨rest, hrest, hactions⟩ := bind_eq_ok_iff.mp h
    cases hactions
    rw [Action.unknownTypesOfList, Action.unknownTypes, List.mem_append, List.exists_mem_cons_iff,
      r.mem_unknownTypes_of_kind? hkind, SkillRecord.mem_unknownTypes_of_actionsOf rs hrest]
termination_by structural rs => rs

end

namespace SkillRecord

variable {r : SkillRecord} {t : UInt32}

theorem logicRule?_of_isSkillSet (h : r.isSkillSet = true) : r.logicRule? = none := by
  unfold logicRule?
  rcases toNat_skillType_of_isSkillSet h with ht | ht
  · rw [ht]
    rfl
  · rw [ht]
    rfl

/-- **The unknown types in the node of a record.** Logic nodes have none. -/
theorem mem_unknownTypes_of_decode {node : Node} (h : r.decode = .ok node) :
    t ∈ node.unknownTypes ↔ r.logicRule? = none ∧ r.HasUnknown t := by
  cases hrule : r.logicRule? with
  | some rule =>
    rw [decode_of_rule hrule] at h
    have hlogic : rule.IsLogic := LogicRule.isLogic_of_mem _ (mem_of_lookup_eq_some hrule)
    rw [Node.unknownTypes, hlogic.action?_eq_none (mapError_eq_ok_iff.mp h)]
    exact ⟨nofun, fun h => nomatch h.1⟩
  | none =>
    rw [decode_of_no_rule hrule] at h
    obtain ⟨action, haction, rfl⟩ := map_eq_ok_iff.mp h
    obtain ⟨kind, hkind, rfl⟩ := action_eq_ok_iff.mp haction
    rw [and_iff_right rfl, ← r.mem_unknownTypes_of_kind? hkind]
    rfl

end SkillRecord

theorem exists_unknown_of_decodeBehavior {records : List SkillRecord} {nodes : List Node}
    {t : UInt32} (h : decodeBehavior records = .ok nodes) :
    (∃ node ∈ nodes, t ∈ node.unknownTypes) ↔
      ∃ r ∈ records, r.logicRule? = none ∧ r.HasUnknown t := by
  rw [decodeBehavior_eq_ok_iff] at h
  induction h with
  | nil => simp
  | cons hnode _ ih =>
    rw [List.exists_mem_cons_iff, List.exists_mem_cons_iff, ih,
      SkillRecord.mem_unknownTypes_of_decode hnode]

/-! ## Unknown types of an enemy -/

namespace Program

/-- **Exactly the unknown types of the records are reported**, each once: at the top level those of
neither logic nor action type, and among what skill sets bundle, at any depth, those of no action
type. -/
theorem unknown_types_reported {records : List SkillRecord} {nodes : List Node} {p : Program}
    (hnodes : decodeBehavior records = .ok nodes) (hprogram : ofList nodes = .ok p)
    (level : UInt32) :
    ∃ summary, p.summarize level = .ok summary ∧
      summary.findings.unknownTypes.Pairwise (· < ·) ∧
      ∀ t, t ∈ summary.findings.unknownTypes ↔
        (∃ r ∈ records, r.logicRule? = none ∧ r.isAction = false ∧ r.skillType = t) ∨
          ∃ r ∈ records, ∃ q, r.Bundles q ∧ q.isAction = false ∧ q.skillType = t := by
  obtain ⟨m, hm, hsummary⟩ := p.exists_summarize level
  refine ⟨m.summary, hsummary, pairwise_ascending _, fun t => ?_⟩
  have hfound : t ∈ m.summary.findings.unknownTypes ↔ ∃ node ∈ nodes, t ∈ node.unknownTypes := by
    show t ∈ m.program.unknownTypes ↔ _
    rw [hm.program, unknownTypes, mem_ascending, List.mem_flatMap, toList_of_ofList hprogram]
  rw [hfound, exists_unknown_of_decodeBehavior hnodes]
  constructor
  · rintro ⟨r, hr, hlogic, hown | hbundled⟩
    · exact .inl ⟨r, hr, hlogic, hown⟩
    · exact .inr ⟨r, hr, hbundled⟩
  · rintro (⟨r, hr, hlogic, hown⟩ | ⟨r, hr, hbundled⟩)
    · exact ⟨r, hr, hlogic, .inl hown⟩
    · obtain ⟨q, hbundles, hq⟩ := hbundled
      exact ⟨r, hr, SkillRecord.logicRule?_of_isSkillSet hbundles.isSkillSet,
        .inr ⟨q, hbundles, hq⟩⟩

/-- A flag that is set at the top level, and the same record inside a skill set inside another.
The dispel has a sub-skill too, which nothing looks at. -/
def nestedRecords : List SkillRecord :=
  [⟨1, 22, some 4, none, [], []⟩,
   ⟨2, 83, none, none, [],
    [⟨3, 95, none, none, [], [⟨4, 22, some 4, none, [], []⟩]⟩,
     ⟨5, 6, none, none, [], [⟨6, 777, none, none, [], []⟩]⟩]⟩]

/-- Its program: the flag is set, and the inner record is an action of unknown type. -/
def nestedSets : Program where
  nodes := #[
    .flagOperation .set 4,
    .action (.mk 2 (.skillSet
      [.mk 3 (.skillSet [.mk 4 (.effect (.unknown 22)) none] true) none,
        .mk 5 (.effect .dispel) none] false) none)]
  staysWithin := by decide

/-- The type of the flag is reported as unknown for the inner record. -/
theorem unknown_types_reported_of_nestedRecords :
    decodeBehavior nestedRecords = .ok nestedSets.toList ∧
      ofList nestedSets.toList = .ok nestedSets ∧
      ∃ summary, nestedSets.summarize 3 = .ok summary ∧ 22 ∈ summary.findings.unknownTypes := by
  have hnodes : decodeBehavior nestedRecords = .ok nestedSets.toList := by decide
  have hprogram := nestedSets.ofList_toList
  obtain ⟨summary, hsummary, -, hunknown⟩ := unknown_types_reported hnodes hprogram 3
  have hbundles :
      ∃ r ∈ nestedRecords, ∃ q, r.Bundles q ∧ q.isAction = false ∧ q.skillType = 22 := by
    refine ⟨_, List.mem_cons_of_mem _ List.mem_cons_self, ⟨4, 22, some 4, none, [], []⟩, ?_,
      rfl, rfl⟩
    exact .deeper rfl List.mem_cons_self (.sub rfl List.mem_cons_self)
  exact ⟨hnodes, hprogram, summary, hsummary, (hunknown 22).mpr (.inr hbundles)⟩

end Program

end EnemyBehavior
