import EnemyBehavior.Proofs.View

/-!
# Blanking nodes

In whatever order nodes are blanked, the same program is left. What is read off a program without
walking it stays, if the chosen nodes have nothing to say about it (`Program.Silent`).

## Main statements

* `Program.blank_comm`, `Program.blank_blank_self` — the order does not matter, nor does repetition
* `Program.Silent.sampledHp`, `Program.Silent.passives`, `Program.Silent.unknownTypes`,
  `Program.Silent.hasEnemyCountBranch` — what is read off a program without walking it
-/

namespace EnemyBehavior

namespace Program

variable {p q : Program} {chosen : Node → Bool} {β : Type}

/-! ## The order of blanking -/

theorem eq_of_toList (h : p.toList = q.toList) : p = q := by
  obtain ⟨nodes, _⟩ := p
  obtain ⟨nodes', _⟩ := q
  obtain rfl : nodes = nodes' := Array.toList_inj.mp h
  rfl

theorem toList_blank (p : Program) (chosen : Node → Bool) :
    (p.blank chosen).toList = p.toList.map (blankIf chosen) := rfl

/-- What is chosen is blanked, whichever choice is made first. -/
theorem blankIf_blankIf (chosen chosen' : Node → Bool) (node : Node) :
    blankIf chosen (blankIf chosen' node)
      = if chosen node || chosen' node then .noOp else node := by
  cases h : chosen node <;> cases h' : chosen' node <;> simp [blankIf, h, h']

theorem blank_comm (p : Program) (chosen chosen' : Node → Bool) :
    (p.blank chosen).blank chosen' = (p.blank chosen').blank chosen := by
  refine eq_of_toList ?_
  simp only [toList_blank, List.map_map]
  refine List.map_congr_left fun node _ => ?_
  rw [Function.comp, Function.comp, blankIf_blankIf, blankIf_blankIf, Bool.or_comm]

theorem blank_blank_self (p : Program) (chosen : Node → Bool) :
    (p.blank chosen).blank chosen = p.blank chosen := by
  refine eq_of_toList ?_
  simp only [toList_blank, List.map_map]
  refine List.map_congr_left fun node _ => ?_
  rw [Function.comp, blankIf_blankIf, Bool.or_self]
  rfl

/-! ## What is read off a program without walking it -/

/-- The chosen nodes state no action, have no HP boundary, and do not ask for the number of
enemies. -/
structure Silent (chosen : Node → Bool) : Prop where
  action? : ∀ node, chosen node = true → node.action? = none
  hpBoundary? : ∀ node, chosen node = true → node.hpBoundary? = none
  isEnemyCountBranch : ∀ node, chosen node = true → node.isEnemyCountBranch = false

/-- What chosen nodes have in common with nodes that do nothing, blanking leaves alone. -/
theorem apply_blankIf {f : Node → β} (h : ∀ node, chosen node = true → f node = f .noOp)
    (node : Node) : f (blankIf chosen node) = f node := by
  unfold blankIf
  split
  · next hchosen => exact (h node hchosen).symm
  · rfl

theorem filterMap_blank {f : Node → Option β} (h : ∀ node, chosen node = true → f node = f .noOp)
    (p : Program) : (p.blank chosen).toList.filterMap f = p.toList.filterMap f := by
  rw [toList_blank, List.filterMap_map]
  exact congrArg (p.toList.filterMap ·) (funext (apply_blankIf h))

namespace Silent

variable (h : Silent chosen)
include h

theorem filterMap_action? (p : Program) :
    (p.blank chosen).toList.filterMap Node.action? = p.toList.filterMap Node.action? :=
  filterMap_blank h.action? p

theorem passives (p : Program) : (p.blank chosen).passives = p.passives := by
  unfold Program.passives
  rw [h.filterMap_action? p]

theorem hpCheckpoints (p : Program) : (p.blank chosen).hpCheckpoints = p.hpCheckpoints := by
  unfold Program.hpCheckpoints
  rw [filterMap_blank h.hpBoundary? p]

theorem sampledHp (p : Program) : (p.blank chosen).sampledHp = p.sampledHp := by
  unfold Program.sampledHp withoutPassives
  rw [blank_comm, h.hpCheckpoints]

theorem unknownTypes (p : Program) : (p.blank chosen).unknownTypes = p.unknownTypes := by
  have hnode : ∀ node, chosen node = true → node.unknownTypes = Node.noOp.unknownTypes := by
    intro node hchosen
    unfold Node.unknownTypes
    rw [h.action? node hchosen]
    rfl
  unfold Program.unknownTypes
  rw [toList_blank, List.flatMap_map]
  exact congrArg (fun f => ascending (p.toList.flatMap f)) (funext (apply_blankIf hnode))

theorem hasEnemyCountBranch (p : Program) :
    (p.blank chosen).hasEnemyCountBranch = p.hasEnemyCountBranch := by
  unfold Program.hasEnemyCountBranch
  rw [toList_blank, List.any_map]
  exact congrArg p.toList.any (funext (apply_blankIf h.isEnemyCountBranch))

end Silent

end Program

end EnemyBehavior
