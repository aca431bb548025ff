import EnemyBehavior.Json.Reading
import EnemyBehavior.Proofs.JsonTexts
import Mathlib.Data.List.Nodup

/-!
# Reading what was written

In an object the order of the fields is free, so a written value may come back with its fields in
another order, at every depth (`Json.Reorders`). A reader reads a written value (`Json.Reads`) if it
makes the same of all of these. Fields with different keys are each found under their key, wherever
they stand (`Json.Holds`), so a record is read if its fields are.

## Main statements

* `Reorders.exists_holds` — the fields of an object are found in any order
* `Holds.required`, `Holds.optional`, `Holds.withDefault` — fields are read if their values are
* `reads_toList`, `reads_toOption` — lists and values that may be missing
* `RoundTrips.of_reads` — what is read as a value is read as a text
-/

namespace EnemyBehavior.Json

variable {α ε : Type} {v w : Json} {items items' : List Json} {fields fields' : List Field}
  {k : String}

/-! ## The order of fields -/

mutual

/-- The second value is the first, with the fields of objects in any order. -/
inductive Reorders : Json → Json → Prop
  | null : Reorders .null .null
  | bool (b : Bool) : Reorders (.bool b) (.bool b)
  | int (i : Int) : Reorders (.int i) (.int i)
  | real (literal : String) : Reorders (.real literal) (.real literal)
  | string (s : String) : Reorders (.string s) (.string s)
  | unreadable : Reorders .unreadable .unreadable
  | array {items items' : List Json} :
      ReordersItems items items' → Reorders (.array items) (.array items')
  | object {fields same fields' : List Field} :
      ReordersFields fields same → same.Perm fields' → Reorders (.object fields) (.object fields')

/-- The items are these in order, each with its fields in any order. -/
inductive ReordersItems : List Json → List Json → Prop
  | nil : ReordersItems [] []
  | cons {v w : Json} {vs ws : List Json} :
      Reorders v w → ReordersItems vs ws → ReordersItems (v :: vs) (w :: ws)

/-- The fields are these in order, each value with its fields in any order. -/
inductive ReordersFields : List Field → List Field → Prop
  | nil : ReordersFields [] []
  | cons {k : String} {v w : Json} {fs gs : List Field} :
      Reorders v w → ReordersFields fs gs → ReordersFields ((k, v) :: fs) ((k, w) :: gs)

end

theorem Reorders.eq_null (h : Reorders v .null) : v = .null := by
  cases h
  rfl

theorem Reorders.of_array (h : Reorders (.array items) w) :
    ∃ items', w = .array items' ∧ ReordersItems items items' := by
  cases h with
  | array hitems => exact ⟨_, rfl, hitems⟩

theorem ReordersItems.exists_of_mem (h : ReordersItems items items') (hw : w ∈ items') :
    ∃ v ∈ items, Reorders v w := by
  induction items generalizing items' with
  | nil =>
    cases h
    cases hw
  | cons v items ih =>
    cases h with
    | cons hfirst hrest =>
      rcases List.mem_cons.mp hw with rfl | hw
      · exact ⟨v, List.mem_cons_self, hfirst⟩
      · obtain ⟨v', hv', hr⟩ := ih hrest hw
        exact ⟨v', List.mem_cons_of_mem _ hv', hr⟩

/-- The fields have the same keys, and belong together. -/
theorem ReordersFields.keys_eq (h : ReordersFields fields fields') :
    fields'.map (·.1) = fields.map (·.1) := by
  induction fields generalizing fields' with
  | nil =>
    cases h
    rfl
  | cons f fields ih =>
    cases h with
    | cons _ hrest => rw [List.map_cons, List.map_cons, ih hrest]

theorem ReordersFields.exists_of_mem (h : ReordersFields fields fields') {g : Field}
    (hg : g ∈ fields') : ∃ f ∈ fields, Reorders f.2 g.2 := by
  induction fields generalizing fields' with
  | nil =>
    cases h
    cases hg
  | cons f fields ih =>
    cases h with
    | cons hfirst hrest =>
      rcases List.mem_cons.mp hg with rfl | hg
      · exact ⟨_, List.mem_cons_self, hfirst⟩
      · obtain ⟨f', hf', hr⟩ := ih hrest hg
        exact ⟨f', List.mem_cons_of_mem _ hf', hr⟩

theorem ReordersFields.exists_of_mem_left (h : ReordersFields fields fields') {f : Field}
    (hf : f ∈ fields) : ∃ w, (f.1, w) ∈ fields' ∧ Reorders f.2 w := by
  induction fields generalizing fields' with
  | nil => cases hf
  | cons f' fields ih =>
    cases h with
    | cons hfirst hrest =>
      rcases List.mem_cons.mp hf with rfl | hf
      · exact ⟨_, List.mem_cons_self, hfirst⟩
      · obtain ⟨w, hw, hr⟩ := ih hrest hf
        exact ⟨w, List.mem_cons_of_mem _ hw, hr⟩

/-! ## Plain values -/

theorem reordersItems_self (h : ∀ v ∈ items, Reorders v v) : ReordersItems items items := by
  induction items with
  | nil => exact .nil
  | cons v items ih =>
    obtain ⟨hv, hitems⟩ := List.forall_mem_cons.mp h
    exact .cons hv (ih hitems)

theorem reordersFields_self (h : ∀ f ∈ fields, Reorders f.2 f.2) :
    ReordersFields fields fields := by
  induction fields with
  | nil => exact .nil
  | cons f fields ih =>
    obtain ⟨hf, hfields⟩ := List.forall_mem_cons.mp h
    exact .cons hf (ih hfields)

/-- The fields may stay in the order they are in. -/
theorem IsPlain.reorders (h : v.IsPlain) : Reorders v v := by
  induction h with
  | null => exact .null
  | bool b => exact .bool b
  | int => exact .int _
  | string s => exact .string s
  | array h ih => exact .array (reordersItems_self ih)
  | object h ih => exact .object (reordersFields_self ih) (.refl _)

theorem IsPlain.of_reorders (h : v.IsPlain) (hr : v.Reorders w) : w.IsPlain := by
  induction h generalizing w with
  | null => cases hr; exact .null
  | bool b => cases hr; exact .bool b
  | int h => cases hr; exact .int h
  | string s => cases hr; exact .string s
  | array h ih =>
    cases hr with
    | array hitems =>
      refine .array fun w hw => ?_
      obtain ⟨v, hv, hr⟩ := hitems.exists_of_mem hw
      exact ih v hv hr
  | object h ih =>
    cases hr with
    | object hsame hperm =>
      refine .object fun g hg => ?_
      obtain ⟨f, hf, hr⟩ := hsame.exists_of_mem (hperm.mem_iff.mpr hg)
      exact ih f hf hr

theorem areReadable_iff : areReadable items = true ↔ ∀ v ∈ items, v.isReadable = true := by
  induction items with
  | nil => simp [areReadable]
  | cons v items ih => rw [areReadable, Bool.and_eq_true, ih, List.forall_mem_cons]

theorem areReadableFields_iff :
    areReadableFields fields = true ↔ ∀ f ∈ fields, f.2.isReadable = true := by
  induction fields with
  | nil => simp [areReadableFields]
  | cons f fields ih => rw [areReadableFields, Bool.and_eq_true, ih, List.forall_mem_cons]

/-- No part of a plain value is unreadable. -/
theorem IsPlain.isReadable (h : v.IsPlain) : v.isReadable = true := by
  induction h with
  | null | bool | int | string => rfl
  | array h ih => exact areReadable_iff.mpr ih
  | object h ih => exact areReadableFields_iff.mpr ih

theorem IsPlain.readable (h : v.IsPlain) : v.readable = .ok () := if_pos h.isReadable

theorem isPlain_uint32 (x : UInt32) : IsPlain (.int x.toNat) :=
  .int (Nat.lt_trans x.toNat_lt (by decide))

theorem isPlain_uint64 (x : UInt64) : IsPlain (.int x.toNat) := .int x.toNat_lt

theorem isPlain_int64 (x : Int64) : IsPlain (.int x.toInt) := by
  have hlow := x.le_toInt
  have hhigh := x.toInt_lt
  refine .int ?_
  rw [UInt64.size]
  omega

theorem isPlain_ofList {write : α → Json} (h : ∀ a, (write a).IsPlain) (as : List α) :
    (ofList write as).IsPlain :=
  .array (List.forall_mem_map.mpr fun a _ => h a)

theorem isPlain_ofOption {write : α → Json} (h : ∀ a, (write a).IsPlain) (a? : Option α) :
    (ofOption write a?).IsPlain := by
  cases a? with
  | none => exact .null
  | some a => exact h a

/-! ## Readers -/

theorem ok_bind {β : Type} (a : α) (f : α → Except ε β) : (Except.ok a >>= f) = f a := rfl

/-- The reader makes the value of what is written, in whatever order the fields come. -/
def Reads (read : Json → Except ε α) (v : Json) (a : α) : Prop :=
  ∀ w, v.Reorders w → read w = .ok a

@[simp] theorem toUInt32_toNat (x : UInt32) : toUInt32 (.int x.toNat) = .ok x := by
  have hx : exactUInt32? x.toNat = some x := exactUInt32?_eq_some_iff.mpr rfl
  simp only [toUInt32, hx, Option.elim_some]

@[simp] theorem toUInt64_toNat (x : UInt64) : toUInt64 (.int x.toNat) = .ok x := by
  have hx : exactUInt64? x.toNat = some x := exactUInt64?_eq_some_iff.mpr rfl
  simp only [toUInt64, hx, Option.elim_some]

@[simp] theorem toInt64_toInt (x : Int64) : toInt64 (.int x.toInt) = .ok x := by
  rw [toInt64, if_pos (fitsInt64_toInt x), Int64.ofInt_toInt]

theorem reads_toUInt32 (x : UInt32) : Reads toUInt32 (ofUInt32 x) x := by
  rintro _ ⟨⟩
  exact toUInt32_toNat x

theorem reads_toInt64 (x : Int64) : Reads toInt64 (ofInt64 x) x := by
  rintro _ ⟨⟩
  exact toInt64_toInt x

theorem reads_toText (s : String) : Reads toText (.string s) s := by
  rintro _ ⟨⟩
  rfl

theorem reads_toBool (b : Bool) : Reads toBool (.bool b) b := by
  rintro _ ⟨⟩
  rfl

/-- **A list is read if its items are.** -/
theorem reads_toList {read : Reader α} {write : α → Json} (h : ∀ a, Reads read (write a) a)
    (as : List α) : Reads (toList read) (ofList write as) as := by
  intro w hw
  obtain ⟨items, rfl, hitems⟩ := hw.of_array
  clear hw
  show items.mapM read = .ok as
  induction as generalizing items with
  | nil =>
    cases hitems
    rfl
  | cons a as ih =>
    cases hitems with
    | cons hfirst hrest =>
      rw [List.mapM_cons, h a _ hfirst, ih _ hrest]
      rfl

/-- **A value that may be missing is read**, if what is written for a value is not null. -/
theorem reads_toOption {read : Reader α} {write : α → Json} (h : ∀ a, Reads read (write a) a)
    (hnull : ∀ a, write a ≠ .null) (a? : Option α) :
    Reads (toOption read) (ofOption write a?) a? := by
  cases a? with
  | none =>
    rintro _ ⟨⟩
    rfl
  | some a =>
    intro w hw
    have hread : toOption read w = (read w).map some := by
      unfold toOption
      split
      · exact absurd hw.eq_null (hnull a)
      · rfl
    rw [hread, h a w hw]
    rfl

/-! ## Fields -/

/-- Among the fields, one has this key, and its value is this one, in whatever order its fields
come. -/
def Holds (fields : List Field) (k : String) (v : Json) : Prop :=
  ∃ w, v.Reorders w ∧ fields.filter (·.1 == k) = [(k, w)]

theorem filter_key {w : Json} (hkeys : (fields.map (·.1)).Nodup) (h : (k, w) ∈ fields) :
    fields.filter (·.1 == k) = [(k, w)] := by
  induction fields with
  | nil => cases h
  | cons f fields ih =>
    obtain ⟨hf, hkeys⟩ := List.nodup_cons.mp hkeys
    rcases List.mem_cons.mp h with rfl | h
    · have hnone : fields.filter (·.1 == k) = [] := by
        refine List.filter_eq_nil_iff.mpr fun g hg heq => hf ?_
        exact List.mem_map.mpr ⟨g, hg, by simpa using heq⟩
      rw [List.filter_cons_of_pos (by simp), hnone]
    · have hne : f.1 ≠ k := by
        rintro rfl
        exact hf (List.mem_map.mpr ⟨_, h, rfl⟩)
      rw [List.filter_cons_of_neg (by simpa using hne), ih hkeys h]

/-- What goes through all fields and picks those with one key, reads these and no others. -/
theorem eq_map_filter_key {β : Type} {pick : List Field → List β} {read : Json → β}
    (hnil : pick [] = [])
    (hcons : ∀ key v fs, pick ((key, v) :: fs) = if key = k then read v :: pick fs else pick fs)
    (fields : List Field) : pick fields = (fields.filter (·.1 == k)).map (read ·.2) := by
  induction fields with
  | nil => exact hnil
  | cons f fields ih =>
    rw [hcons, ih, List.filter_cons]
    by_cases hkey : f.1 = k
    · simp [hkey]
    · simp [hkey]

/-- **The fields of an object are found in any order**, if their keys differ. -/
theorem Reorders.exists_holds (h : (Json.object fields).Reorders w)
    (hkeys : (fields.map (·.1)).Nodup) :
    ∃ fields', w = .object fields' ∧ ∀ f ∈ fields, Holds fields' f.1 f.2 := by
  cases h with
  | object hsame hperm =>
    rename_i same fields'
    refine ⟨fields', rfl, fun f hf => ?_⟩
    obtain ⟨w, hw, hr⟩ := hsame.exists_of_mem_left hf
    have hkeys' : (fields'.map (·.1)).Nodup :=
      (hperm.map (·.1)).nodup_iff.mp (hsame.keys_eq ▸ hkeys)
    exact ⟨w, hr, filter_key hkeys' (hperm.mem_iff.mp hw)⟩

namespace Holds

theorem exists_get? (h : Holds fields k v) :
    ∃ w, v.Reorders w ∧ ∀ place, (Body.named fields).get? place k = .ok (some w) := by
  obtain ⟨w, hr, hfilter⟩ := h
  refine ⟨w, hr, fun place => ?_⟩
  unfold Body.get?
  simp only [hfilter]

/-- **A field is read if its value is.** -/
theorem required {read : Reader α} {a : α} (h : Holds fields k v) (hread : Reads read v a)
    (place : Nat) : (Body.named fields).required place k read = .ok a := by
  obtain ⟨w, hr, hget⟩ := h.exists_get?
  rw [Body.required, hget]
  exact hread w hr

theorem optional {read : Reader α} {a? : Option α} (h : Holds fields k v)
    (hread : Reads (toOption read) v a?) (place : Nat) :
    (Body.named fields).optional place k read = .ok a? := by
  obtain ⟨w, hr, hget⟩ := h.exists_get?
  rw [Body.optional, hget]
  exact hread w hr

theorem withDefault {read : Reader α} {a : α} (h : Holds fields k v) (hread : Reads read v a)
    (place : Nat) (default : α) : (Body.named fields).withDefault place k default read = .ok a := by
  obtain ⟨w, hr, hget⟩ := h.exists_get?
  rw [Body.withDefault, hget]
  exact hread w hr

/-- The tag is read, and the fields stay. -/
theorem tagged {tag : String} (h : Holds fields k (.string tag)) :
    (Body.named fields).tagged k = .ok (tag, .named fields) := by
  rw [Body.tagged, h.required (reads_toText tag)]
  rfl

end Holds

/-! ## Values and texts -/

/-- **Reading undoes writing**, as a value and as a text, and in whatever order the fields come.
Texts are read as far as texts may nest. -/
structure RoundTrips (write : α → Json) (read : Json → Except ε α) : Prop where
  value : ∀ a, read (write a) = .ok a
  text : ∀ a, (write a).nesting ≤ maxNesting →
    (parse? (write a).compact).map read = some (.ok a)
  reordered : ∀ a w, (write a).Reorders w →
    read w = .ok a ∧ (w.nesting ≤ maxNesting → (parse? w.compact).map read = some (.ok a))

theorem RoundTrips.of_reads {write : α → Json} {read : Json → Except ε α}
    (hplain : ∀ a, (write a).IsPlain) (hreads : ∀ a, Reads read (write a) a) :
    RoundTrips write read := by
  have hreordered : ∀ a w, (write a).Reorders w →
      read w = .ok a ∧ (w.nesting ≤ maxNesting → (parse? w.compact).map read = some (.ok a)) := by
    intro a w hw
    refine ⟨hreads a w hw, fun hnesting => ?_⟩
    rw [((hplain a).of_reorders hw).parse?_compact hnesting, Option.map_some, hreads a w hw]
  exact
    { value := fun a => (hreordered a _ (hplain a).reorders).1
      text := fun a => (hreordered a _ (hplain a).reorders).2
      reordered := hreordered }

end EnemyBehavior.Json
