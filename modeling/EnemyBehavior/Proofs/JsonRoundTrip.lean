import EnemyBehavior.Enemy.Json
import EnemyBehavior.Proofs.JsonActions
import EnemyBehavior.Skillset.Json

/-!
# Everything that is written is read back

The records of this library are read field by field. The types that nest, that is actions and skill
records, are read back by induction over their nesting; all others hold values of types that are
read back already.

## Main statements

* `SkillRecord.reads`, `Enemy.reads` — the input is read back
* `Skillset.reads` — the output is read back
* `json_round_trips` — reading undoes writing for every type, as a value and as a text
-/

namespace EnemyBehavior

open Json (Body Field IsPlain Reads RoundTrips)

/-! ## Groups -/

theorem isPlain_actionsToJson (as : List Action) : (actionsToJson as).IsPlain :=
  Json.isPlain_ofList Action.isPlain as

namespace TimedGroup

theorem isPlain (g : TimedGroup) : g.toJson.IsPlain := by
  refine .object ?_
  simp only [List.forall_mem_cons]
  exact ⟨Json.isPlain_uint32 _, Json.isPlain_uint32 _, isPlain_actionsToJson _, nofun⟩

theorem reads (g : TimedGroup) : Reads ofJson g.toJson g := by
  intro w hw
  obtain ⟨fields, rfl, h⟩ := hw.exists_holds (by simp)
  simp only [List.forall_mem_cons] at h
  obtain ⟨hturn, hhp, hactions, -⟩ := h
  simp only [ofJson, Json.body, Json.ok_bind, Body.sized, hturn.required (Json.reads_toUInt32 _),
    hhp.required (Json.reads_toUInt32 _), hactions.required (Action.reads_list _)]
  rfl

end TimedGroup

namespace EnemyCountGroup

theorem isPlain (g : EnemyCountGroup) : g.toJson.IsPlain := by
  refine .object ?_
  simp only [List.forall_mem_cons]
  exact ⟨Json.isPlain_uint32 _, isPlain_actionsToJson _,
    Json.isPlain_ofOption isPlain_actionsToJson _, nofun⟩

theorem reads (g : EnemyCountGroup) : Reads ofJson g.toJson g := by
  intro w hw
  obtain ⟨fields, rfl, h⟩ := hw.exists_holds (by simp)
  simp only [List.forall_mem_cons] at h
  obtain ⟨hcount, hactions, hfollow, -⟩ := h
  have hoption : Reads (Json.toOption Action.listOfJson)
      (Json.ofOption actionsToJson g.followUp) g.followUp :=
    Json.reads_toOption Action.reads_list (fun _ => nofun) _
  simp only [ofJson, Json.body, Json.ok_bind, Body.sized, hcount.required (Json.reads_toUInt32 _),
    hactions.required (Action.reads_list _), hfollow.optional hoption]
  rfl

end EnemyCountGroup

namespace HpGroup

theorem isPlain (g : HpGroup) : g.toJson.IsPlain := by
  refine .object ?_
  simp only [List.forall_mem_cons]
  exact ⟨Json.isPlain_uint32 _, isPlain_actionsToJson _, nofun⟩

theorem reads (g : HpGroup) : Reads ofJson g.toJson g := by
  intro w hw
  obtain ⟨fields, rfl, h⟩ := hw.exists_holds (by simp)
  simp only [List.forall_mem_cons] at h
  obtain ⟨hceiling, hactions, -⟩ := h
  simp only [ofJson, Json.body, Json.ok_bind, Body.sized,
    hceiling.required (Json.reads_toUInt32 _), hactions.required (Action.reads_list _)]
  rfl

end HpGroup

/-! ## Skillsets -/

namespace Skillset

theorem isPlain (s : Skillset) : s.toJson.IsPlain := by
  refine .object ?_
  rw [jsonFields]
  simp only [List.forall_mem_cons]
  exact ⟨Json.isPlain_uint32 _, isPlain_actionsToJson _, isPlain_actionsToJson _,
    Json.isPlain_ofList TimedGroup.isPlain _, Json.isPlain_ofList TimedGroup.isPlain _,
    Json.isPlain_ofList EnemyCountGroup.isPlain _, Json.isPlain_ofList HpGroup.isPlain _, nofun⟩

/-- **A skillset is read back.** -/
theorem reads (s : Skillset) : Reads ofJson s.toJson s := by
  intro w hw
  obtain ⟨fields, rfl, h⟩ := hw.exists_holds (by simp [jsonFields])
  simp only [jsonFields, List.forall_mem_cons] at h
  obtain ⟨hlevel, habilities, hpreemptives, htimed, hrepeating, hcount, hhp, -⟩ := h
  simp only [ofJson, Json.body, Json.ok_bind, Body.sized, hlevel.required (Json.reads_toUInt32 _),
    habilities.required (Action.reads_list _), hpreemptives.required (Action.reads_list _),
    htimed.required (Json.reads_toList TimedGroup.reads _),
    hrepeating.required (Json.reads_toList TimedGroup.reads _),
    hcount.required (Json.reads_toList EnemyCountGroup.reads _),
    hhp.required (Json.reads_toList HpGroup.reads _)]
  rfl

end Skillset

/-! ## Skill records -/

mutual

theorem SkillRecord.isPlain : ∀ r : SkillRecord, r.toJson.IsPlain
  | ⟨skillId, skillType, ai, rnd, params, subSkills⟩ => by
    refine .object ?_
    simp only [List.forall_mem_cons]
    exact ⟨Json.isPlain_uint32 _, Json.isPlain_uint32 _,
      Json.isPlain_ofOption Json.isPlain_int64 _, Json.isPlain_ofOption Json.isPlain_int64 _,
      Json.isPlain_ofList (Json.isPlain_ofOption Json.isPlain_int64) _,
      .array (SkillRecord.forall_isPlain subSkills), nofun⟩
termination_by structural r => r

theorem SkillRecord.forall_isPlain :
    ∀ rs : List SkillRecord, ∀ v ∈ SkillRecord.listToJson rs, v.IsPlain
  | [] => nofun
  | r :: rs => List.forall_mem_cons.mpr ⟨r.isPlain, SkillRecord.forall_isPlain rs⟩
termination_by structural rs => rs

end

theorem SkillRecord.subSkillsOfFields_eq (fields : List Field) :
    SkillRecord.subSkillsOfFields fields
      = (fields.filter (·.1 == subSkillsField)).map (SkillRecord.listOfJson ·.2) :=
  Json.eq_map_filter_key rfl (fun _ _ _ => rfl) fields

mutual

/-- **A skill record is read back**, with all its sub-skills. -/
theorem SkillRecord.reads : ∀ r : SkillRecord, Reads SkillRecord.ofJson r.toJson r
  | ⟨skillId, skillType, ai, rnd, params, subSkills⟩ => by
    intro w hw
    obtain ⟨fields, rfl, h⟩ := hw.exists_holds (by simp)
    simp only [List.forall_mem_cons] at h
    obtain ⟨hid, htype, hai, hrnd, hparams, ⟨w', hw', hfilter⟩, -⟩ := h
    obtain ⟨items, rfl, hitems⟩ := hw'.of_array
    have hskills : SkillRecord.listOfJson (.array items) = .ok subSkills :=
      SkillRecord.listOfItems_of_reorders subSkills items hitems
    have hoption : ∀ x?, Reads (Json.toOption Json.toInt64) (Json.ofOption Json.ofInt64 x?) x? :=
      Json.reads_toOption Json.reads_toInt64 fun _ => nofun
    rw [SkillRecord.ofJson, SkillRecord.subSkillsOfFields_eq, subSkillsField, hfilter,
      List.map_singleton, hskills]
    simp only [SkillRecord.ofBody, Json.ok_bind, Body.sized,
      hid.required (Json.reads_toUInt32 _), htype.required (Json.reads_toUInt32 _),
      hai.withDefault (hoption _), hrnd.withDefault (hoption _),
      hparams.withDefault (Json.reads_toList hoption _)]
    rfl
termination_by structural r => r

theorem SkillRecord.listOfItems_of_reorders : ∀ (rs : List SkillRecord) (items : List Json),
    Json.ReordersItems (SkillRecord.listToJson rs) items →
      SkillRecord.listOfItems items = .ok rs
  | [], items => by
    rintro ⟨⟩
    rfl
  | r :: rs, items => by
    intro h
    cases h with
    | cons hfirst hrest =>
      rw [SkillRecord.listOfItems, r.reads _ hfirst,
        SkillRecord.listOfItems_of_reorders rs _ hrest]
      rfl
termination_by structural rs => rs

end

theorem SkillRecord.reads_list (rs : List SkillRecord) :
    Reads SkillRecord.listOfJson (.array (SkillRecord.listToJson rs)) rs := by
  intro w hw
  obtain ⟨items, rfl, hitems⟩ := hw.of_array
  exact SkillRecord.listOfItems_of_reorders rs items hitems

/-! ## Enemies -/

namespace Enemy

theorem isPlain (e : Enemy) : e.toJson.IsPlain := by
  refine .object ?_
  simp only [List.forall_mem_cons]
  exact ⟨Json.isPlain_uint32 _, Json.isPlain_ofOption Json.isPlain_uint32 _,
    .array (SkillRecord.forall_isPlain _), nofun⟩

/-- **An enemy is read back.** -/
theorem reads (e : Enemy) : Reads ofJson e.toJson e := by
  intro w hw
  obtain ⟨fields, rfl, h⟩ := hw.exists_holds (by simp)
  simp only [List.forall_mem_cons] at h
  obtain ⟨hid, hlevel, hrecords, -⟩ := h
  have hoption : Reads (Json.toOption Json.toUInt32)
      (Json.ofOption Json.ofUInt32 e.level) e.level :=
    Json.reads_toOption Json.reads_toUInt32 (fun _ => nofun) _
  simp only [ofJson, Json.body, Json.ok_bind, Body.sized, hid.required (Json.reads_toUInt32 _),
    hlevel.optional hoption, hrecords.required (SkillRecord.reads_list _)]
  rfl

end Enemy

/-! ## All types -/

/-- **Reading undoes writing over the whole JSON form.** What is written for a value of any type is
read back as that value, however deeply it nests and in whatever order the fields of objects come;
and so is its text, as far as texts may nest. -/
theorem json_round_trips :
    RoundTrips SkillRecord.toJson SkillRecord.ofJson ∧
    RoundTrips Enemy.toJson Enemy.ofJson ∧
    RoundTrips Condition.toJson Condition.ofJson ∧
    RoundTrips ActionKind.toJson ActionKind.ofJson ∧
    RoundTrips Action.toJson Action.ofJson ∧
    RoundTrips Node.toJson Node.ofJson ∧
    RoundTrips Program.toJson Program.ofJson ∧
    RoundTrips TimedGroup.toJson TimedGroup.ofJson ∧
    RoundTrips EnemyCountGroup.toJson EnemyCountGroup.ofJson ∧
    RoundTrips HpGroup.toJson HpGroup.ofJson ∧
    RoundTrips Skillset.toJson Skillset.ofJson :=
  ⟨.of_reads SkillRecord.isPlain SkillRecord.reads, .of_reads Enemy.isPlain Enemy.reads,
    .of_reads Condition.isPlain Condition.reads, .of_reads ActionKind.isPlain ActionKind.reads,
    .of_reads Action.isPlain Action.reads, .of_reads Node.isPlain Node.reads,
    .of_reads Program.isPlain Program.reads, .of_reads TimedGroup.isPlain TimedGroup.reads,
    .of_reads EnemyCountGroup.isPlain EnemyCountGroup.reads,
    .of_reads HpGroup.isPlain HpGroup.reads, .of_reads Skillset.isPlain Skillset.reads⟩

end EnemyBehavior
