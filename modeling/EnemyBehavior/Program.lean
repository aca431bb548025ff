import EnemyBehavior.Ascending
import EnemyBehavior.BattleState
import EnemyBehavior.Node

/-!
# Programs

A `Program` is a list of behaviour nodes all of whose branches lead to one of its nodes. Positions
are counted from 1; position 0 is the entry, which does nothing.

A program also knows at which values of the situation its behaviour can change: the HP
percentages, the levels and the cards that its nodes test.

## Main statements

* `firstBadBranch_eq_none_iff` — a list of nodes is refused only for a branch out of bounds
* `Program.ofList_toList` — the nodes of a program form that program again
-/

namespace EnemyBehavior

/-! ## Branch targets -/

/-- The node is no branch, or leads to one of the positions `1, …, length`. -/
def Node.StaysWithin (length : Nat) (node : Node) : Prop :=
  ∀ t, node.target? = some t → 1 ≤ t.toNat ∧ t.toNat ≤ length

theorem Node.staysWithin_iff {length : Nat} {node : Node} :
    node.StaysWithin length ↔
      node.target?.all (fun t => 1 ≤ t.toNat ∧ t.toNat ≤ length) = true := by
  unfold StaysWithin
  cases node.target? with
  | none => simp
  | some t => simp

instance (length : Nat) (node : Node) : Decidable (node.StaysWithin length) :=
  decidable_of_iff' _ Node.staysWithin_iff

/-- A branch that leads nowhere. -/
structure BranchOutOfBounds where
  /-- The position of the branch. -/
  index : Nat
  target : UInt64
  /-- The number of nodes. -/
  length : Nat
deriving DecidableEq

/-- The text a bad branch is reported with. -/
def BranchOutOfBounds.message (e : BranchOutOfBounds) : String :=
  s!"branch at index {e.index} targets {e.target}, outside 1..={e.length}"

/-- The first branch out of bounds among nodes that start at position `index`. -/
def firstBadBranch (length : Nat) : (index : Nat) → List Node → Option BranchOutOfBounds
  | _, [] => none
  | index, node :: rest =>
    match node.target? with
    | none => firstBadBranch length (index + 1) rest
    | some t =>
      if 1 ≤ t.toNat ∧ t.toNat ≤ length then firstBadBranch length (index + 1) rest
      else some ⟨index, t, length⟩

theorem firstBadBranch_eq_none_iff {length index : Nat} {nodes : List Node} :
    firstBadBranch length index nodes = none ↔ ∀ node ∈ nodes, node.StaysWithin length := by
  induction nodes generalizing index with
  | nil => simp [firstBadBranch]
  | cons node rest ih =>
    unfold firstBadBranch
    cases ht : node.target? with
    | none =>
      have hnode : node.StaysWithin length := fun t h => by rw [ht] at h; cases h
      rw [ih, List.forall_mem_cons, and_iff_right hnode]
    | some t =>
      have hnode : node.StaysWithin length ↔ 1 ≤ t.toNat ∧ t.toNat ≤ length := by
        constructor
        · exact fun h => h t ht
        · intro h u hu
          rw [ht] at hu
          cases hu
          exact h
      by_cases hb : 1 ≤ t.toNat ∧ t.toNat ≤ length
      · dsimp only
        rw [if_pos hb, ih, List.forall_mem_cons, and_iff_right (hnode.mpr hb)]
      · dsimp only
        rw [if_neg hb, List.forall_mem_cons]
        exact ⟨nofun, fun h => absurd (hnode.mp h.1) hb⟩

/-! ## Programs -/

/-- Nodes whose branches all stay within them. -/
structure Program where
  nodes : Array Node
  staysWithin : ∀ node ∈ nodes, node.StaysWithin nodes.size
deriving DecidableEq

namespace Program

/-- Forms a program, or names the first branch that leaves it. -/
def ofList (nodes : List Node) : Except BranchOutOfBounds Program :=
  match h : firstBadBranch nodes.length 1 nodes with
  | none => .ok
      { nodes := nodes.toArray
        staysWithin := fun node hn => by
          rw [List.size_toArray]
          exact firstBadBranch_eq_none_iff.mp h node (List.mem_toArray.mp hn) }
  | some e => .error e

def toList (p : Program) : List Node := p.nodes.toList

def length (p : Program) : Nat := p.nodes.size

theorem ofList_toList (p : Program) : ofList p.toList = .ok p := by
  have h : firstBadBranch p.toList.length 1 p.toList = none :=
    firstBadBranch_eq_none_iff.mpr fun node hn => by
      simpa [toList] using p.staysWithin node (Array.mem_toList_iff.mp hn)
  unfold ofList
  split
  · rfl
  · rename_i e he
    rw [h] at he
    cases he

theorem toList_of_ofList {nodes : List Node} {p : Program} (h : ofList nodes = .ok p) :
    p.toList = nodes := by
  unfold ofList at h
  split at h
  · cases h
    rfl
  · cases h

/-- The node at a position; position 0 is the entry. -/
def node? (p : Program) : (position : Nat) → Option Node
  | 0 => some .noOp
  | index + 1 => p.nodes[index]?

/-! ## Blanking nodes -/

/-- The node, or a node that does nothing in its place. -/
def blankIf (chosen : Node → Bool) (node : Node) : Node := if chosen node then .noOp else node

theorem staysWithin_blankIf {length : Nat} {node : Node} (chosen : Node → Bool)
    (h : node.StaysWithin length) : (blankIf chosen node).StaysWithin length := by
  unfold blankIf
  split
  · exact fun t ht => nomatch ht
  · exact h

/-- Replaces the chosen nodes by nodes that do nothing; positions stay as they are. -/
def blank (p : Program) (chosen : Node → Bool) : Program where
  nodes := (p.toList.map (blankIf chosen)).toArray
  staysWithin := fun node hn => by
    obtain ⟨m, hm, rfl⟩ := List.mem_map.mp (List.mem_toArray.mp hn)
    rw [List.size_toArray, List.length_map]
    exact staysWithin_blankIf chosen (p.staysWithin m (Array.mem_toList_iff.mp hm))

/-- The program without the traits of the enemy. -/
def withoutPassives (p : Program) : Program := p.blank Node.isPassive

/-- The program without the markers of the opening move. -/
def withoutMarkers (p : Program) : Program := p.blank Node.isPreemptive

/-- The traits of the enemy, in program order. -/
def passives (p : Program) : List Action :=
  (p.toList.filterMap Node.action?).filter Action.isPassive

/-! ## Where behaviour can change -/

/-- An HP boundary, capped at full HP, with the percentage below it and the one above it. -/
def hpNeighbourhood (boundary : UInt32) : List UInt32 :=
  let value := min boundary fullHp
  [value, if value = 0 then 0 else value - 1, min (value + 1) fullHp]

/-- The HP percentages worth sampling, ascending: full HP, and each boundary with its neighbours. -/
def hpCheckpoints (p : Program) : List UInt32 :=
  ascending (fullHp :: (p.toList.filterMap Node.hpBoundary?).flatMap hpNeighbourhood)

/-- The cards the program asks for, ascending. -/
def cardCheckpoints (p : Program) : List UInt32 :=
  ascending (p.toList.flatMap Node.cardIds)

/-- The levels at which behaviour may change, ascending: the default level and each level gate. -/
def levels (p : Program) : List UInt32 :=
  ascending (defaultLevel :: p.toList.filterMap Node.levelBoundary?)

/-- Whether the number of enemies matters at all. -/
def hasEnemyCountBranch (p : Program) : Bool := p.toList.any Node.isEnemyCountBranch

/-- The unknown skill types of the program, ascending. -/
def unknownTypes (p : Program) : List UInt32 := ascending (p.toList.flatMap Node.unknownTypes)

end Program

end EnemyBehavior
