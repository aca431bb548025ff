import EnemyBehavior.Action
import EnemyBehavior.Distinct

/-!
# Turn maps

What an enemy does on one turn, by HP percentage: a finite map from percentages to action lists.
The entries stand in descending order of percentage, as HP goes down in a battle.
-/

namespace EnemyBehavior

/-- An HP percentage with the actions used at it. -/
abbrev HpEntry := UInt32 × List Action

/-- Puts an entry at its place in a descending list; an entry for the same percentage gives way. -/
def insertEntry (entry : HpEntry) : List HpEntry → List HpEntry
  | [] => [entry]
  | e :: es =>
    if e.1 < entry.1 then entry :: e :: es
    else if e.1 = entry.1 then entry :: es
    else e :: insertEntry entry es

/-- The percentages of the entries go strictly down. -/
def Descending (entries : List HpEntry) : Prop := entries.Pairwise (fun a b => b.1 < a.1)

instance (entries : List HpEntry) : Decidable (Descending entries) :=
  inferInstanceAs (Decidable (List.Pairwise _ _))

theorem mem_insertEntry {x entry : HpEntry} {es : List HpEntry} (h : x ∈ insertEntry entry es) :
    x = entry ∨ x ∈ es := by
  induction es with
  | nil => exact .inl (List.mem_singleton.mp h)
  | cons e es ih =>
    unfold insertEntry at h
    split at h
    · exact List.mem_cons.mp h
    · split at h
      · exact (List.mem_cons.mp h).imp_right (List.mem_cons_of_mem _)
      · rcases List.mem_cons.mp h with rfl | h
        · exact .inr List.mem_cons_self
        · exact (ih h).imp_right (List.mem_cons_of_mem _)

theorem descending_insertEntry {entry : HpEntry} {es : List HpEntry} (h : Descending es) :
    Descending (insertEntry entry es) := by
  induction es with
  | nil => exact List.pairwise_singleton _ _
  | cons e es ih =>
    obtain ⟨he, hes⟩ := List.pairwise_cons.mp h
    unfold insertEntry
    split
    · rename_i hlt
      refine List.pairwise_cons.mpr ⟨fun x hx => ?_, h⟩
      rcases List.mem_cons.mp hx with rfl | hx
      · exact hlt
      · exact UInt32.lt_trans (he x hx) hlt
    · split
      · rename_i heq
        exact List.pairwise_cons.mpr ⟨fun x hx => heq ▸ he x hx, hes⟩
      · rename_i hge hne
        refine List.pairwise_cons.mpr ⟨fun x hx => ?_, ih hes⟩
        rcases mem_insertEntry hx with rfl | hx
        · exact UInt32.lt_of_le_of_ne (UInt32.not_lt.mp hge) (Ne.symm hne)
        · exact he x hx

/-- The behaviour on one turn, by HP percentage. -/
structure TurnMap where
  entries : List HpEntry
  descending : Descending entries
deriving DecidableEq

namespace TurnMap

def empty : TurnMap := ⟨[], List.Pairwise.nil⟩

/-- Records the actions used at a percentage. -/
def insert (m : TurnMap) (entry : HpEntry) : TurnMap :=
  ⟨insertEntry entry m.entries, descending_insertEntry m.descending⟩

def get? (m : TurnMap) (hp : UInt32) : Option (List Action) := m.entries.lookup hp

/-- The turn does the same at that percentage. -/
def covers (m : TurnMap) (e : HpEntry) : Bool := m.get? e.1 == some e.2

/-- The map of a sampled turn: each behaviour under the first percentage that showed it. -/
def ofSamples (samples : List HpEntry) : TurnMap :=
  (distinctOn Prod.snd [] samples).foldl insert empty

end TurnMap

end EnemyBehavior
