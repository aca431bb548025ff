import EnemyBehavior.Node.Json
import EnemyBehavior.Proofs.JsonReading

/-!
# Flat values are read back

The parameters of a flat value stand under keys of their own, so each is found, whatever else stands
beside them, and read for what it was written as. The name of an effect picks the parameters that
are read, and they are its own.

## Main statements

* `Scalar.eq_of_reorders` — in a parameter there is nothing to put into another order
* `Shape.required_eq`, `Shape.optional_eq` — parameters are found under their keys
* `Condition.reads` — a condition is read back
* `Effect.ofBody_shape` — an effect is read from its name and parameters
-/

namespace EnemyBehavior

open Json (Body Reader Field Holds IsPlain Reads Reorders)

variable {fields : List Field} {k : String}

/-! ## Parameters -/

namespace Scalar

/-- A parameter has no fields to put into another order. -/
theorem eq_of_reorders {s : Scalar} {w : Json} (h : s.toJson.Reorders w) : w = s.toJson := by
  cases s with
  | number | flag | word =>
    cases h
    rfl
  | optional value =>
    cases value <;>
    · cases h
      rfl
  | numbers values =>
    obtain ⟨items, rfl, hitems⟩ := Reorders.of_array h
    refine congrArg Json.array ?_
    clear h
    induction values generalizing items with
    | nil =>
      cases hitems
      rfl
    | cons value values ih =>
      cases hitems with
      | cons hfirst hrest =>
        cases hfirst
        rw [ih _ hrest, List.map_cons]

theorem required_eq (s : Scalar) (h : Holds fields k s.toJson) {α : Type} (place : Nat)
    (read : Reader α) : (Body.named fields).required place k read = read s.toJson := by
  obtain ⟨w, hr, hget⟩ := h.exists_get?
  rw [Body.required, hget, eq_of_reorders hr]
  rfl

theorem optional_eq (s : Scalar) (h : Holds fields k s.toJson) {α : Type} (place : Nat)
    (read : Reader α) : (Body.named fields).optional place k read = s.toJson.toOption read := by
  obtain ⟨w, hr, hget⟩ := h.exists_get?
  rw [Body.optional, hget, eq_of_reorders hr]
  rfl

/-! ### Reading one parameter -/

theorem toInt64_number (x : Int64) : Json.toInt64 (number x.toInt).toJson = .ok x :=
  Json.toInt64_toInt x

theorem toUInt32_number (x : UInt32) : Json.toUInt32 (number x.toNat).toJson = .ok x :=
  Json.toUInt32_toNat x

theorem toUInt64_number (x : UInt64) : Json.toUInt64 (number x.toNat).toJson = .ok x :=
  Json.toUInt64_toNat x

theorem toBool_flag (b : Bool) : Json.toBool (flag b).toJson = .ok b := rfl

theorem toList_numbers {α : Type} {read : Reader α} {f : α → Int}
    (h : ∀ a, read (.int (f a)) = .ok a) (as : List α) :
    Json.toList read (numbers (as.map f)).toJson = .ok as := by
  have hread : (read ∘ Json.int) ∘ f = Except.ok := funext h
  show ((as.map f).map Json.int).mapM read = .ok as
  rw [List.mapM_map, List.mapM_map, hread]
  exact (List.mapM_pure (m := Except ReadError) (f := id)).trans (congrArg Except.ok as.map_id)

theorem toOption_optional {α : Type} {read : Reader α} {f : α → Int}
    (h : ∀ a, read (.int (f a)) = .ok a) (a? : Option α) :
    Json.toOption read (optional (a?.map f)).toJson = .ok a? := by
  cases a? with
  | none => rfl
  | some a => exact congrArg (Except.map some) (h a)

theorem toOption_optionalNumber (x? : Option Int64) :
    Json.toOption Json.toInt64 (optionalNumber x?).toJson = .ok x? :=
  toOption_optional Json.toInt64_toInt x?

theorem toList_numbersOf (xs : List Int64) :
    Json.toList Json.toInt64 (numbersOf xs).toJson = .ok xs :=
  toList_numbers Json.toInt64_toInt xs

/-! ### The range of parameters -/

@[simp] theorem isPlain_uint32 (x : UInt32) : (number x.toNat).toJson.IsPlain :=
  Json.isPlain_uint32 x

@[simp] theorem isPlain_uint64 (x : UInt64) : (number x.toNat).toJson.IsPlain :=
  Json.isPlain_uint64 x

@[simp] theorem isPlain_int64 (x : Int64) : (number x.toInt).toJson.IsPlain := Json.isPlain_int64 x

@[simp] theorem isPlain_flag (b : Bool) : (flag b).toJson.IsPlain := .bool b

@[simp] theorem isPlain_word (name : String) : (word name).toJson.IsPlain := .string name

theorem isPlain_numbers {α : Type} {f : α → Int} (h : ∀ a, (Json.int (f a)).IsPlain)
    (as : List α) : (numbers (as.map f)).toJson.IsPlain :=
  .array (List.forall_mem_map.mpr (List.forall_mem_map.mpr fun a _ => h a))

theorem isPlain_optional {α : Type} {f : α → Int} (h : ∀ a, (Json.int (f a)).IsPlain)
    (a? : Option α) : (optional (a?.map f)).toJson.IsPlain := by
  cases a? with
  | none => exact .null
  | some a => exact h a

@[simp] theorem isPlain_numbersOf (xs : List Int64) : (numbersOf xs).toJson.IsPlain :=
  isPlain_numbers Json.isPlain_int64 xs

@[simp] theorem isPlain_optionalNumber (x? : Option Int64) :
    (optionalNumber x?).toJson.IsPlain := isPlain_optional Json.isPlain_int64 x?

end Scalar

/-! ### Names -/

theorem BindTarget.ofJson_word (t : BindTarget) : ofJson (Scalar.word t.name).toJson = .ok t := by
  cases t <;> rfl

theorem RecoverTarget.ofJson_word (t : RecoverTarget) :
    ofJson (Scalar.word t.name).toJson = .ok t := by
  cases t <;> rfl

theorem DebuffStat.ofJson_word (s : DebuffStat) : ofJson (Scalar.word s.name).toJson = .ok s := by
  cases s <;> rfl

theorem AbsorbSource.ofJson_word (s : AbsorbSource) :
    ofJson (Scalar.word s.name).toJson = .ok s := by
  cases s <;> rfl

theorem SpawnLayout.ofJson_word (l : SpawnLayout) :
    ofJson (Scalar.word l.name).toJson = .ok l := by
  cases l <;> rfl

theorem SealLayout.ofJson_word (l : SealLayout) :
    ofJson (Scalar.word l.name).toJson = .ok l := by
  cases l <;> rfl

/-! ### Reading all parameters -/

theorem Shape.required_eq {s : Shape} (h : ∀ f ∈ s.fields, Holds fields f.1 f.2.toJson) :
    ∀ f ∈ s.fields, ∀ {α : Type} (place : Nat) (read : Reader α),
      (Body.named fields).required place f.1 read = read f.2.toJson :=
  fun f hf => f.2.required_eq (h f hf)

theorem Shape.optional_eq {s : Shape} (h : ∀ f ∈ s.fields, Holds fields f.1 f.2.toJson) :
    ∀ f ∈ s.fields, ∀ {α : Type} (place : Nat) (read : Reader α),
      (Body.named fields).optional place f.1 read = f.2.toJson.toOption read :=
  fun f hf => f.2.optional_eq (h f hf)

theorem Shape.forall_jsonFields {s : Shape} {P : Field → Prop} :
    (∀ f ∈ s.jsonFields, P f) ↔ ∀ f ∈ s.fields, P (f.1, f.2.toJson) := List.forall_mem_map

/-! ## Conditions -/

namespace Condition

theorem isPlain (c : Condition) : c.toJson.IsPlain := by
  refine .object (Shape.forall_jsonFields.mpr ?_)
  simp [shape, Scalar.isPlain_optional Json.isPlain_uint32,
    Scalar.isPlain_optional Json.isPlain_uint64]

/-- **A condition is read back.** -/
theorem reads (c : Condition) : Reads ofJson c.toJson c := by
  intro w hw
  have hkeys : (c.shape.jsonFields.map (·.1)).Nodup := by simp [shape, Shape.jsonFields]
  obtain ⟨fields, rfl, hfields⟩ := hw.exists_holds hkeys
  have hrequired := Shape.required_eq (Shape.forall_jsonFields.mp hfields)
  have hoptional := Shape.optional_eq (Shape.forall_jsonFields.mp hfields)
  simp only [shape, List.forall_mem_cons] at hrequired hoptional
  simp only [ofJson, Json.body, Json.ok_bind, Body.sized, hrequired, hoptional,
    Scalar.toUInt32_number, Scalar.toOption_optional Json.toUInt32_toNat,
    Scalar.toOption_optional Json.toUInt64_toNat]
  rfl

end Condition

/-! ## Effects -/

/-- **An effect is read from its name and parameters.** -/
theorem Effect.ofBody_shape (e : Effect) (h : ∀ f ∈ e.shape.fields, Holds fields f.1 f.2.toJson) :
    Effect.ofBody e.shape.name (.named fields) = .ok e := by
  have hrequired := Shape.required_eq h
  have hoptional := Shape.optional_eq h
  clear h
  unfold ofBody
  cases e
  case defaultAttack | dispel | inactivity | endBattle | fixedStart | fixedTarget => rfl
  -- the name picks the branch, and each parameter is read from its key
  all_goals
    simp only [shape, List.forall_mem_cons] at hrequired hoptional
    simp only [shape, hrequired, hoptional, Body.sized, Scalar.toInt64_number,
      Scalar.toUInt32_number, Scalar.toBool_flag, Scalar.toOption_optionalNumber,
      Scalar.toList_numbersOf, BindTarget.ofJson_word, RecoverTarget.ofJson_word,
      DebuffStat.ofJson_word, AbsorbSource.ofJson_word, SpawnLayout.ofJson_word,
      SealLayout.ofJson_word]
    rfl

/-- The parameters of an effect fit into 64 bits. -/
theorem Effect.isPlain_shape (e : Effect) : ∀ f ∈ e.shape.fields, f.2.toJson.IsPlain := by
  cases e <;> simp [shape]

end EnemyBehavior
