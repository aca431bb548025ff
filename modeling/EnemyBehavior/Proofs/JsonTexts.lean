import EnemyBehavior.Proofs.JsonTokens

/-!
# JSON texts are read back

The compact text of a plain value is read as that value, if it nests no deeper than texts may. The
proof goes along the two machines: the lexer gives the tokens of the value back, and over these
tokens the parser delivers the value to the container around it (`Delivers`), whatever containers
are open.

## Main statements

* `IsPlain.lexes` — the lexer over the text of a value
* `IsPlain.delivers` — the parser over the tokens of a value
* `IsPlain.parse?_compact` — the text of a value
-/

namespace EnemyBehavior.Json

variable {v : Json} {items : List Json} {fields : List Field} {stack : List Frame}

/-! ## Plain values -/

/-- The value is fully readable, and its numbers are integers of at most 64 bits. -/
inductive IsPlain : Json → Prop
  | null : IsPlain .null
  | bool (b : Bool) : IsPlain (.bool b)
  | int {i : Int} (h : i.natAbs < UInt64.size) : IsPlain (.int i)
  | string (s : String) : IsPlain (.string s)
  | array {items : List Json} (h : ∀ v ∈ items, IsPlain v) : IsPlain (.array items)
  | object {fields : List Field} (h : ∀ f ∈ fields, IsPlain f.2) : IsPlain (.object fields)

mutual

/-- The number of containers that are open at once in the text of a value. -/
def nesting : Json → Nat
  | array items => nestingOfItems items + 1
  | object fields => nestingOfFields fields + 1
  | _ => 0
termination_by structural v => v

/-- The greatest nesting of the items. -/
def nestingOfItems : List Json → Nat
  | [] => 0
  | v :: vs => max v.nesting (nestingOfItems vs)
termination_by structural vs => vs

/-- The greatest nesting of the values of the fields. -/
def nestingOfFields : List Field → Nat
  | [] => 0
  | (_, v) :: fs => max v.nesting (nestingOfFields fs)
termination_by structural fs => fs

end

/-! ## Lexing -/

theorem tokensOfItems_eq_map (items : List Json) : tokensOfItems items = items.map tokens := by
  induction items with
  | nil => rfl
  | cons v items ih => rw [tokensOfItems, ih, List.map_cons]

theorem tokensOfFields_eq_map (fields : List Field) :
    tokensOfFields fields = fields.map fun f => .string f.1 :: .colon :: f.2.tokens := by
  induction fields with
  | nil => rfl
  | cons f fields ih => rw [tokensOfFields, ih, List.map_cons]

theorem joinTokens_cons_cons (separator : Token) (part next : List Token)
    (parts : List (List Token)) :
    joinTokens separator (part :: next :: parts)
      = part ++ separator :: joinTokens separator (next :: parts) := rfl

/-- Parts with commas between them are read back if each of them is. -/
theorem lexes_joinTokens {parts : List (List Token)} (h : ∀ part ∈ parts, Lexes part) :
    Lexes (joinTokens .comma parts) := by
  induction parts with
  | nil => exact lexes_nil
  | cons part parts ih =>
    obtain ⟨hpart, hparts⟩ := List.forall_mem_cons.mp h
    cases parts with
    | nil => exact hpart
    | cons next parts => exact hpart.append ⟨',', rfl, rfl⟩ (ih hparts)

/-- What stands between two marks is read back with them. -/
theorem Lexes.between {ts : List Token} {first last : Token} (h : Lexes ts) (hfirst : first.IsMark)
    (hlast : last.IsMark) : Lexes (first :: ts ++ [last]) :=
  (lexes_nil.append hfirst h).append hlast lexes_nil

/-- **The tokens of a plain value are read back.** -/
theorem IsPlain.lexes (h : v.IsPlain) : Lexes v.tokens := by
  induction h with
  | null => exact lexes_word (by decide) (by decide)
  | bool b =>
    cases b with
    | true => exact lexes_word (by decide) (by decide)
    | false => exact lexes_word (by decide) (by decide)
  | int h => exact lexes_word (all_isBare_int _) (bareToken?_int h)
  | string s => exact lexes_string s
  | @array items h ih =>
    have hparts : Lexes (joinTokens .comma (tokensOfItems items)) := by
      rw [tokensOfItems_eq_map]
      exact lexes_joinTokens (List.forall_mem_map.mpr ih)
    exact hparts.between ⟨'[', rfl, rfl⟩ ⟨']', rfl, rfl⟩
  | @object fields h ih =>
    have hparts : Lexes (joinTokens .comma (tokensOfFields fields)) := by
      rw [tokensOfFields_eq_map]
      refine lexes_joinTokens (List.forall_mem_map.mpr fun f hf => ?_)
      exact (lexes_string f.1).append ⟨':', rfl, rfl⟩ (ih f hf)
    exact hparts.between ⟨'\x7b', rfl, rfl⟩ ⟨'\x7d', rfl, rfl⟩

theorem IsPlain.tokens?_chars (h : v.IsPlain) :
    tokens? (v.tokens.flatMap Token.chars) = some v.tokens := by
  obtain ⟨l, hl, hfinish⟩ := h.lexes []
  rw [tokens?, hl]
  exact hfinish

/-! ## Parsing -/

/-- Over the tokens of the value the parser delivers it, if there is room for what it nests. -/
def Delivers (v : Json) : Prop :=
  ∀ stack, stack.length + v.nesting ≤ maxNesting →
    v.tokens.foldlM Parser.step (.value stack) = some (Parser.deliver v stack)

theorem close_of_room {n : Nat} (h : stack.length + (n + 1) ≤ maxNesting) (v : Json) :
    Parser.close v stack = Parser.deliver v stack := by
  unfold Parser.close
  rw [if_pos (by omega)]

/-! ### Arrays -/

/-- A value starts with a token that does not close an array. -/
theorem IsPlain.tokens_eq_cons (h : v.IsPlain) :
    ∃ t ts, v.tokens = t :: ts ∧ t ≠ .closeArray := by
  cases h with
  | null | bool | int | string | array | object => exact ⟨_, _, rfl, nofun⟩

/-- A value is read as an item of an array that has just been opened. -/
theorem IsPlain.foldlM_firstItem (h : v.IsPlain) (stack : List Frame) (rest : List Token) :
    (v.tokens ++ rest).foldlM Parser.step (.firstItem stack)
      = (v.tokens ++ rest).foldlM Parser.step (.value (.array [] :: stack)) := by
  obtain ⟨t, ts, htokens, ht⟩ := h.tokens_eq_cons
  rw [htokens, List.cons_append, List.foldlM_cons, List.foldlM_cons]
  have hstep : Parser.step (.firstItem stack) t = Parser.valueStep (.array [] :: stack) t :=
    if_neg ht
  rw [hstep]
  rfl

/-- Items with commas between them are gathered. -/
theorem foldlM_items (h : ∀ v ∈ items, Delivers v) (hne : items ≠ []) (done : List Json)
    (hroom : stack.length + (nestingOfItems items + 1) ≤ maxNesting) :
    (joinTokens .comma (items.map tokens)).foldlM Parser.step (.value (.array done :: stack))
      = some (.moreItems (items.reverse ++ done) stack) := by
  induction items generalizing done with
  | nil => exact absurd rfl hne
  | cons v items ih =>
    obtain ⟨hv, hitems⟩ := List.forall_mem_cons.mp h
    rw [nestingOfItems] at hroom
    have hfirst : v.tokens.foldlM Parser.step (.value (.array done :: stack))
        = some (.moreItems (v :: done) stack) := hv _ (by rw [List.length_cons]; omega)
    cases items with
    | nil => exact hfirst
    | cons next items =>
      rw [List.map_cons, List.map_cons, joinTokens_cons_cons, List.foldlM_append, hfirst]
      refine (ih hitems (List.cons_ne_nil _ _) (v :: done) (by omega)).trans ?_
      rw [List.reverse_cons (a := v), List.append_assoc]
      rfl

theorem delivers_array (hplain : ∀ v ∈ items, v.IsPlain) (h : ∀ v ∈ items, Delivers v) :
    Delivers (.array items) := by
  intro stack hroom
  have hroom : stack.length + (nestingOfItems items + 1) ≤ maxNesting := hroom
  rw [tokens, tokensOfItems_eq_map, List.cons_append, List.foldlM_cons]
  show List.foldlM Parser.step (.firstItem stack) _ = _
  cases items with
  | nil => exact congrArg some (close_of_room hroom _)
  | cons v items =>
    have hstart : ∃ rest, joinTokens .comma ((v :: items).map tokens) ++ [.closeArray]
        = v.tokens ++ rest := by
      cases items with
      | nil => exact ⟨_, rfl⟩
      | cons next items => exact ⟨_, List.append_assoc _ _ _⟩
    obtain ⟨rest, hrest⟩ := hstart
    rw [hrest, (hplain v List.mem_cons_self).foldlM_firstItem, ← hrest, List.foldlM_append,
      foldlM_items h (List.cons_ne_nil _ _) [] hroom, List.append_nil]
    show some (Parser.close (.array (v :: items).reverse.reverse) stack) = _
    rw [List.reverse_reverse, close_of_room hroom]

/-! ### Objects -/

/-- A field as the parser gathers it. -/
def keyed (f : Field) : Key × Json := (some f.1, f.2)

theorem objectOf_map_keyed (fields : List Field) :
    objectOf (fields.map keyed) = .object fields := by
  have hkeys : (fields.map keyed).mapM (fun f => f.1.map (·, f.2)) = some fields := by
    rw [List.mapM_map]
    exact (List.mapM_pure (m := Option) (f := id)).trans (congrArg some fields.map_id)
  unfold objectOf
  split
  · next read hread =>
    obtain rfl : read = fields := Option.some.inj (hread.symm.trans hkeys)
    rfl
  · next hread => cases hread.symm.trans hkeys

/-- A field is read behind those that have been gathered. -/
theorem foldlM_field {f : Field} (h : Delivers f.2) (done : List (Key × Json))
    (hroom : stack.length + (f.2.nesting + 1) ≤ maxNesting) :
    (Token.string f.1 :: .colon :: f.2.tokens).foldlM Parser.step (.key done stack)
      = some (.moreFields (keyed f :: done) stack) :=
  h (.object done (some f.1) :: stack) (by rw [List.length_cons]; omega)

/-- Fields with commas between them are gathered. -/
theorem foldlM_fields (h : ∀ f ∈ fields, Delivers f.2) (hne : fields ≠ [])
    (done : List (Key × Json))
    (hroom : stack.length + (nestingOfFields fields + 1) ≤ maxNesting) :
    (joinTokens .comma (tokensOfFields fields)).foldlM Parser.step (.key done stack)
      = some (.moreFields ((fields.map keyed).reverse ++ done) stack) := by
  induction fields generalizing done with
  | nil => exact absurd rfl hne
  | cons f fields ih =>
    obtain ⟨hf, hfields⟩ := List.forall_mem_cons.mp h
    rw [nestingOfFields] at hroom
    have hfirst : (Token.string f.1 :: .colon :: f.2.tokens).foldlM Parser.step (.key done stack)
        = some (.moreFields (keyed f :: done) stack) := foldlM_field hf done (by omega)
    cases fields with
    | nil => exact hfirst
    | cons next fields =>
      rw [tokensOfFields, tokensOfFields, joinTokens_cons_cons, List.foldlM_append, hfirst]
      refine (ih hfields (List.cons_ne_nil _ _) (keyed f :: done) (by omega)).trans ?_
      rw [List.map_cons (a := f), List.reverse_cons (a := keyed f), List.append_assoc]
      rfl

theorem delivers_object (h : ∀ f ∈ fields, Delivers f.2) : Delivers (.object fields) := by
  intro stack hroom
  have hroom : stack.length + (nestingOfFields fields + 1) ≤ maxNesting := hroom
  rw [tokens, List.cons_append, List.foldlM_cons]
  show List.foldlM Parser.step (.firstKey stack) _ = _
  cases fields with
  | nil => exact congrArg some (close_of_room hroom _)
  | cons f fields =>
    have hstart : ∃ rest, joinTokens .comma (tokensOfFields (f :: fields)) ++ [.closeObject]
        = .string f.1 :: rest := by
      cases fields with
      | nil => exact ⟨_, rfl⟩
      | cons next fields => exact ⟨_, rfl⟩
    obtain ⟨rest, hrest⟩ := hstart
    have hkey : (Token.string f.1 :: rest).foldlM Parser.step (.firstKey stack)
        = (Token.string f.1 :: rest).foldlM Parser.step (.key [] stack) := rfl
    rw [hrest, hkey, ← hrest, List.foldlM_append,
      foldlM_fields h (List.cons_ne_nil _ _) [] hroom, List.append_nil]
    show some (Parser.close (objectOf ((f :: fields).map keyed).reverse.reverse) stack) = _
    rw [List.reverse_reverse, objectOf_map_keyed, close_of_room hroom]

/-- **Over its tokens, a plain value is delivered.** -/
theorem IsPlain.delivers (h : v.IsPlain) : Delivers v := by
  induction h with
  | null | bool | int | string => exact fun _ _ => rfl
  | array h ih => exact delivers_array h ih
  | object h ih => exact delivers_object ih

/-! ## Texts -/

/-- **The compact text of a plain value is read back**, if it nests no deeper than texts may. -/
theorem IsPlain.parse?_compact (h : v.IsPlain) (hnesting : v.nesting ≤ maxNesting) :
    parse? v.compact = some v := by
  have hdelivered : v.tokens.foldlM Parser.step (.value []) = some (.done v) :=
    h.delivers [] (by simpa using hnesting)
  rw [parse?, compact, String.toList_ofList, h.tokens?_chars]
  show (v.tokens.foldlM Parser.step (.value [])).bind Parser.finish = _
  rw [hdelivered]
  rfl

end EnemyBehavior.Json
