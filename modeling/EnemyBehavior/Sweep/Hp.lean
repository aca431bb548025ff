import EnemyBehavior.Skillset
import EnemyBehavior.TurnMap
import EnemyBehavior.Walk

/-!
# The sweep over HP

The steady behaviour by HP. HP goes down through the checkpoints on one state that is never reset;
at each checkpoint the program is walked until it shows a behaviour that was met before, but at
most `maxHpWalks` times. Each new behaviour is reported under the checkpoint at which it appeared,
unless a turn group has reported it for that percentage.
-/

namespace EnemyBehavior

/-- The most walks that are made at one checkpoint. -/
def maxHpWalks : Nat := 32

/-- One walk of the sweep, and whether it showed a behaviour for the first time. -/
structure HpStep where
  probe : Probe
  fresh : Bool
deriving DecidableEq

/-- The walks made at one checkpoint. -/
structure HpRecord where
  hp : UInt32
  steps : List HpStep
deriving DecidableEq

namespace HpRecord

/-- Every walk showed something new, to the last one allowed. -/
def stillChanging (r : HpRecord) : Bool := r.steps.all (·.fresh)

/-- The walks at the checkpoint, in order. -/
def probes (r : HpRecord) : List Probe := r.steps.map (·.probe)

/-- The behaviours met for the first time, in order. -/
def freshActions (r : HpRecord) : List (List Action) :=
  (r.steps.filter (·.fresh)).map (·.probe.actions)

/-- The groups for new behaviours that have not been emitted for this percentage. -/
def groups (emitted : List HpEntry) (r : HpRecord) : List HpGroup :=
  (r.freshActions.filter fun actions => (r.hp, actions) ∉ emitted).map (⟨r.hp, ·⟩)

def final (r : HpRecord) (start : BattleState) : BattleState :=
  match r.steps.getLast? with
  | none => start
  | some step => step.probe.final

end HpRecord

namespace Program

/-- Walks on from `s` until a behaviour in `seen` comes up again, at most `walks` times. -/
def settle (p : Program) : (walks : Nat) → BattleState → (seen : List (List Action)) → List HpStep
  | 0, _, _ => []
  | walks + 1, s, seen =>
    let probe := p.probe s
    if probe.actions ∈ seen then [⟨probe, false⟩]
    else ⟨probe, true⟩ :: p.settle walks probe.final (probe.actions :: seen)

/-- Sweeps the checkpoints on one state; `seen` holds the behaviours met so far. -/
def sweepHpFrom (p : Program) :
    (checkpoints : List UInt32) → BattleState → (seen : List (List Action)) → List HpRecord
  | [], _, _ => []
  | hp :: checkpoints, s, seen =>
    let record : HpRecord := ⟨hp, p.settle maxHpWalks { s with hp } seen⟩
    record :: p.sweepHpFrom checkpoints (record.final s) (seen ++ record.freshActions)

def sweepHp (p : Program) (checkpoints : List UInt32) (s : BattleState) : List HpRecord :=
  p.sweepHpFrom checkpoints s []

end Program

end EnemyBehavior
