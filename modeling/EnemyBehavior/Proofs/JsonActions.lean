import EnemyBehavior.Proofs.JsonShapes

/-!
# Actions and nodes are read back

In an action the tag and the parameters of its kind stand beside the number and the condition, and
in a node the tag of the node stands beside these. No kind has a parameter with one of those keys,
so none is mistaken for another. Skill sets bundle actions, so actions are read back by induction
over their nesting.

## Main statements

* `ActionKind.nodup_keys` — the keys of an action differ, whatever its kind
* `Action.ofJson_of_holds` — an action is read from its fields, also if others stand beside them
* `Action.reads`, `ActionKind.reads` — actions and kinds of action are read back
* `Node.reads`, `Program.reads` — nodes and programs are read back
-/

namespace EnemyBehavior

open Json (Body Field Holds IsPlain Reads)

variable {fields : List Field}

/-! ## Kinds of action -/

namespace ActionKind

/-- **No kind of action has a parameter with the key of another field**, or two with one key. -/
theorem nodup_keys (kind : ActionKind) :
    ("node" :: "skill_id" :: "condition" :: kind.jsonFields.map (·.1)).Nodup := by
  cases kind with
  | skillSet => simp [jsonFields]
  | effect e =>
    cases e <;> simp [jsonFields, Effect.jsonFields, Shape.jsonFields, Effect.shape]

/-- The name under which a kind of action is written. -/
def name : ActionKind → String
  | effect e => e.shape.name
  | skillSet .. => skillSetName

theorem jsonFields_eq_cons (kind : ActionKind) :
    ∃ rest, kind.jsonFields = ("kind", .string kind.name) :: rest := by
  cases kind with
  | effect e => exact ⟨_, rfl⟩
  | skillSet => exact ⟨_, rfl⟩

/-- The name of an effect is not that of skill sets. -/
theorem name_effect_ne (e : Effect) : e.shape.name ≠ skillSetName := by
  cases e <;> simp [Effect.shape, skillSetName]

end ActionKind

/-! ## What actions are written as -/

mutual

theorem Action.isPlain : ∀ a : Action, a.toJson.IsPlain
  | .mk skillId kind condition => by
    refine .object ?_
    rw [Action.jsonFields, List.forall_mem_cons, List.forall_mem_append, List.forall_mem_singleton]
    refine ⟨Json.isPlain_uint32 skillId, kind.forall_isPlain, ?_⟩
    cases condition with
    | none => exact .null
    | some c => exact c.isPlain
termination_by structural a => a

theorem ActionKind.forall_isPlain : ∀ kind : ActionKind, ∀ f ∈ kind.jsonFields, f.2.IsPlain
  | .effect e => by
    rw [ActionKind.jsonFields, Effect.jsonFields, List.forall_mem_cons, Shape.forall_jsonFields]
    exact ⟨.string _, e.isPlain_shape⟩
  | .skillSet skills onDeath => by
    rw [ActionKind.jsonFields, List.forall_mem_cons, List.forall_mem_cons,
      List.forall_mem_singleton]
    exact ⟨.string _, .array (Action.forall_isPlain skills), .bool onDeath⟩
termination_by structural kind => kind

theorem Action.forall_isPlain : ∀ as : List Action, ∀ v ∈ Action.listToJson as, v.IsPlain
  | [] => nofun
  | a :: as => List.forall_mem_cons.mpr ⟨a.isPlain, Action.forall_isPlain as⟩
termination_by structural as => as

end

/-- The keys of an action differ, also from the tag of a node. -/
theorem Action.nodup_keys (a : Action) : ("node" :: a.jsonFields.map (·.1)).Nodup := by
  obtain ⟨skillId, kind, condition⟩ := a
  refine List.Perm.nodup_iff ?_ |>.mp kind.nodup_keys
  rw [Action.jsonFields, List.map_cons, List.map_append]
  exact .cons _ (.cons _ (List.perm_append_singleton _ _).symm)

/-! ## Actions -/

theorem Action.skillsOfFields_eq (fields : List Field) :
    Action.skillsOfFields fields
      = (fields.filter (·.1 == "skills")).map (Action.listOfJson ·.2) :=
  Json.eq_map_filter_key rfl (fun _ _ _ => rfl) fields

mutual

/-- **An action is read from its fields**, also if others stand beside them. -/
theorem Action.ofJson_of_holds : ∀ (a : Action) (fields : List Field),
    (∀ f ∈ a.jsonFields, Holds fields f.1 f.2) → (Json.object fields).IsPlain →
      Action.ofJson (.object fields) = .ok a
  | .mk skillId kind condition, fields => by
    intro h hplain
    rw [Action.jsonFields, List.forall_mem_cons, List.forall_mem_append,
      List.forall_mem_singleton] at h
    obtain ⟨hid, hkind, hcondition⟩ := h
    have hfields : kindFields fields = .ok () := by
      cases hplain with
      | object hall =>
        exact (IsPlain.object fun f hf => hall f (List.mem_filter.mp hf).1).readable
    have hname : Reads kindName (.string kind.name) kind.name := by
      rintro _ ⟨⟩
      rfl
    have htag : Holds fields "kind" (.string kind.name) := by
      obtain ⟨rest, hrest⟩ := kind.jsonFields_eq_cons
      exact hkind _ (hrest ▸ List.mem_cons_self)
    have hoption : Reads (Json.toOption Condition.ofJson)
        (Json.ofOption Condition.toJson condition) condition :=
      Json.reads_toOption Condition.reads (fun _ => nofun) condition
    simp only [Action.ofJson, hfields, hid.required (Json.reads_toUInt32 skillId),
      hcondition.optional hoption, htag.required hname, kind.ofBody_of_holds fields hkind,
      Json.ok_bind]
    rfl
termination_by structural a => a

theorem ActionKind.ofBody_of_holds : ∀ (kind : ActionKind) (fields : List Field),
    (∀ f ∈ kind.jsonFields, Holds fields f.1 f.2) →
      ActionKind.ofBody kind.name (.named fields) (Action.skillsOfFields fields) = .ok kind
  | .effect e, fields => by
    intro h
    rw [ActionKind.jsonFields, Effect.jsonFields, List.forall_mem_cons,
      Shape.forall_jsonFields] at h
    rw [ActionKind.ofBody, ActionKind.name, if_neg (ActionKind.name_effect_ne e),
      e.ofBody_shape h.2]
    rfl
  | .skillSet skills onDeath, fields => by
    intro h
    rw [ActionKind.jsonFields, List.forall_mem_cons, List.forall_mem_cons,
      List.forall_mem_singleton] at h
    obtain ⟨-, ⟨w, hw, hfilter⟩, hdeath⟩ := h
    obtain ⟨items, rfl, hitems⟩ := hw.of_array
    have hskills : Action.listOfJson (.array items) = .ok skills :=
      Action.listOfItems_of_reorders skills items hitems
    rw [Action.skillsOfFields_eq, hfilter, List.map_singleton, hskills, ActionKind.ofBody,
      ActionKind.name, if_pos rfl, hdeath.required (Json.reads_toBool onDeath)]
    rfl
termination_by structural kind => kind

theorem Action.listOfItems_of_reorders : ∀ (as : List Action) (items : List Json),
    Json.ReordersItems (Action.listToJson as) items → Action.listOfItems items = .ok as
  | [], items => by
    rintro ⟨⟩
    rfl
  | a :: as, items => by
    intro h
    cases h with
    | cons hfirst hrest =>
      obtain ⟨fields, rfl, hfields⟩ := hfirst.exists_holds a.nodup_keys.of_cons
      have ha : Action.ofJson (.object fields) = .ok a :=
        a.ofJson_of_holds fields hfields (a.isPlain.of_reorders hfirst)
      rw [Action.listOfItems, ha, Action.listOfItems_of_reorders as _ hrest]
      rfl
termination_by structural as => as

end

/-- **An action is read back.** -/
theorem Action.reads (a : Action) : Reads Action.ofJson a.toJson a := by
  intro w hw
  obtain ⟨fields, rfl, hfields⟩ := hw.exists_holds a.nodup_keys.of_cons
  exact a.ofJson_of_holds fields hfields (a.isPlain.of_reorders hw)

theorem Action.reads_list (as : List Action) :
    Reads Action.listOfJson (actionsToJson as) as := by
  intro w hw
  obtain ⟨items, rfl, hitems⟩ := hw.of_array
  exact Action.listOfItems_of_reorders as items (Action.listToJson_eq_map as ▸ hitems)

theorem ActionKind.isPlain (kind : ActionKind) : kind.toJson.IsPlain :=
  .object kind.forall_isPlain

/-- **A kind of action is read back.** -/
theorem ActionKind.reads (kind : ActionKind) : Reads ActionKind.ofJson kind.toJson kind := by
  intro w hw
  have hkeys : (kind.jsonFields.map (·.1)).Nodup := kind.nodup_keys.of_cons.of_cons.of_cons
  obtain ⟨fields, rfl, hfields⟩ := hw.exists_holds hkeys
  have htag : Holds fields "kind" (.string kind.name) := by
    obtain ⟨rest, hrest⟩ := kind.jsonFields_eq_cons
    exact hfields _ (hrest ▸ List.mem_cons_self)
  simp only [ActionKind.ofJson, (kind.isPlain.of_reorders hw).readable, Json.body, htag.tagged,
    Json.ok_bind]
  exact kind.ofBody_of_holds fields hfields

/-! ## Nodes -/

theorem Comparison.ofJson_word (c : Comparison) : ofJson (Scalar.word c.name).toJson = .ok c := by
  cases c <;> rfl

theorem FlagOp.ofJson_word (op : FlagOp) : ofJson (Scalar.word op.name).toJson = .ok op := by
  cases op <;> rfl

theorem CounterOp.ofJson_word (op : CounterOp) : ofJson (Scalar.word op.name).toJson = .ok op := by
  cases op <;> rfl

namespace Node

/-- What stands beside the name of a node. -/
def jsonFields : Node → List Field
  | action a => a.jsonFields
  | node => node.shape.jsonFields

theorem toJson_eq (node : Node) :
    node.toJson = .object (("node", .string node.shape.name) :: node.jsonFields) := by
  cases node <;> rfl

theorem isPlain (node : Node) : node.toJson.IsPlain := by
  rw [toJson_eq]
  refine .object (List.forall_mem_cons.mpr ⟨.string _, ?_⟩)
  cases node
  case action a =>
    cases a.isPlain with
    | object h => exact h
  all_goals
    refine Shape.forall_jsonFields.mpr ?_
    simp [shape, Scalar.isPlain_numbers Json.isPlain_uint32]

theorem nodup_keys (node : Node) : ("node" :: node.jsonFields.map (·.1)).Nodup := by
  cases node
  case action a => exact a.nodup_keys
  all_goals simp [jsonFields, shape, Shape.jsonFields]

/-- **A node is read from its name and parameters.** -/
theorem ofBody_of_holds (node : Node) (h : ∀ f ∈ node.jsonFields, Holds fields f.1 f.2)
    (hplain : (Json.object fields).IsPlain) :
    Node.ofBody node.shape.name (.named fields) = .ok node := by
  unfold ofBody
  cases node
  case noOp | countdown | endPath => rfl
  case action a =>
    show (Action.ofJson (.object fields)).map action = _
    rw [a.ofJson_of_holds fields h hplain]
    rfl
  all_goals
    have hrequired := Shape.required_eq (Shape.forall_jsonFields.mp h)
    clear h
    simp only [shape, List.forall_mem_cons] at hrequired
    simp only [shape, hrequired, Body.sized, Scalar.toInt64_number, Scalar.toUInt32_number,
      Scalar.toUInt64_number, Scalar.toList_numbers Json.toUInt32_toNat, Comparison.ofJson_word,
      FlagOp.ofJson_word, CounterOp.ofJson_word]
    rfl

/-- **A node is read back.** -/
theorem reads (node : Node) : Reads Node.ofJson node.toJson node := by
  intro w hw
  have hplain := node.isPlain.of_reorders hw
  rw [toJson_eq] at hw
  obtain ⟨fields, rfl, hfields⟩ := hw.exists_holds node.nodup_keys
  obtain ⟨htag, hfields⟩ := List.forall_mem_cons.mp hfields
  simp only [Node.ofJson, hplain.readable, Json.body, htag.tagged, Json.ok_bind]
  exact node.ofBody_of_holds hfields hplain

end Node

/-! ## Programs -/

namespace Program

theorem isPlain (p : Program) : p.toJson.IsPlain :=
  Json.isPlain_ofList Node.isPlain p.toList

/-- **A program is read back**, and its branches pass the check. -/
theorem reads (p : Program) : Reads Program.ofJson p.toJson p := by
  intro w hw
  have hnodes : nodesOfJson w = .ok p.toList := Json.reads_toList Node.reads p.toList w hw
  rw [Program.ofJson, hnodes]
  show (Program.ofList p.toList).mapError _ = _
  rw [p.ofList_toList]
  rfl

end Program

end EnemyBehavior
