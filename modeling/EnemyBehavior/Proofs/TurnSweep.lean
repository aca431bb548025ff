import EnemyBehavior.Proofs.Run
import EnemyBehavior.Sweep.Turns

/-!
# The turns of a sweep

A sweep fails only if the turns run out of numbers. `Program.IsSweep` describes a sweep that
succeeds, turn by turn: each turn is the record of its own start, and the state it carries over
starts the next one.

## Main statements

* `BattleState.endTurn_eq_ok_iff` — what the end of a turn changes
* `BattleState.toInt_counter_tickCountdown` — the counter after a turn, reckoned in integers
* `Program.sweepTurns_eq_ok_iff` — the sweeps that succeed
* `Program.exists_sweepTurns` — a sweep succeeds while turns can be counted
* `Program.IsSweep.invariant` — what every turn hands on holds throughout the sweep
* `Program.IsSweep.turn_bounds` — the numbers of the turns
-/

namespace EnemyBehavior

/-! ## The end of a turn -/

namespace BattleState

variable {s next : BattleState}

/-- The turn number goes up by one, and a running countdown ticks. -/
theorem endTurn_eq_ok_iff :
    s.endTurn = .ok next ↔
      s.turn.toNat + 1 < UInt32.size ∧ next = { s.tickCountdown with turn := s.turn + 1 } := by
  unfold endTurn
  split
  · next h =>
    rw [Except.ok.injEq, and_iff_right h]
    exact eq_comm
  · next h => exact ⟨nofun, fun hok => absurd hok.1 h⟩

/-- The next turn has the next number. -/
theorem toNat_turn_of_endTurn (h : s.endTurn = .ok next) :
    next.turn.toNat = s.turn.toNat + 1 := by
  obtain ⟨hsize, rfl⟩ := endTurn_eq_ok_iff.mp h
  have hmod : s.turn.toNat + 1 < 2 ^ 32 := hsize
  show (s.turn + 1).toNat = _
  rw [UInt32.toNat_add]
  exact Nat.mod_eq_of_lt hmod

theorem tickCountdown_sameSituation (s : BattleState) : s.tickCountdown.SameSituation s := by
  unfold tickCountdown
  split
  · split <;> exact ⟨rfl, rfl, rfl, rfl, rfl⟩
  · exact .refl s

/-- **A running countdown lowers a positive counter by one**, and the counter has that value. -/
theorem toInt_counter_tickCountdown (s : BattleState) :
    s.tickCountdown.counter.toInt =
      if s.countdown = true ∧ 0 < s.counter.toInt then s.counter.toInt - 1
      else s.counter.toInt := by
  unfold tickCountdown
  by_cases hrunning : s.countdown = true
  · rw [if_pos hrunning]
    by_cases hpos : 0 < s.counter
    · have hpos' : 0 < s.counter.toInt := Int64.lt_iff_toInt_lt.mp hpos
      have hfits := fitsInt64_toInt s.counter
      unfold FitsInt64 at hfits
      have hone : (1 : Int64).toInt = 1 := rfl
      rw [if_pos hpos, if_pos ⟨hrunning, hpos'⟩, Int64.toInt_sub, hone,
        Int.bmod_eq_of_le (by omega) (by omega)]
    · have hpos' : ¬0 < s.counter.toInt := fun h => hpos (Int64.lt_iff_toInt_lt.mpr h)
      rw [if_neg hpos, if_neg fun h => hpos' h.2]
  · rw [if_neg hrunning, if_neg fun h => hrunning h.1]

/-- The end of a turn leaves the one-time bits alone. -/
theorem endTurn_oneTimeFlags (h : s.endTurn = .ok next) : next.oneTimeFlags = s.oneTimeFlags := by
  obtain ⟨-, rfl⟩ := endTurn_eq_ok_iff.mp h
  show s.tickCountdown.oneTimeFlags = _
  unfold tickCountdown
  split
  · split <;> rfl
  · rfl

theorem exists_endTurn (h : s.turn.toNat + 1 < UInt32.size) : ∃ next, s.endTurn = .ok next :=
  ⟨_, endTurn_eq_ok_iff.mpr ⟨h, rfl⟩⟩

end BattleState

/-! ## Sweeps as sequences of turns -/

namespace Program

variable {p : Program} {checkpoints : List UInt32} {s final : BattleState}
  {records : List TurnRecord} {turns : Nat}

/-- The records are those of successive turns, from the first state to the last. -/
inductive IsSweep (p : Program) (checkpoints : List UInt32) :
    BattleState → List TurnRecord → BattleState → Prop
  | done (s : BattleState) : IsSweep p checkpoints s [] s
  | turn {s next final : BattleState} {records : List TurnRecord} :
    (p.turnRecord checkpoints s).carried.endTurn = .ok next →
    IsSweep p checkpoints next records final →
    IsSweep p checkpoints s (p.turnRecord checkpoints s :: records) final

theorem sweepTurns_succ_eq_ok_iff :
    p.sweepTurns checkpoints (turns + 1) s = .ok (records, final) ↔
      ∃ next rest, (p.turnRecord checkpoints s).carried.endTurn = .ok next ∧
        p.sweepTurns checkpoints turns next = .ok (rest, final) ∧
        records = p.turnRecord checkpoints s :: rest := by
  simp only [sweepTurns, bind_eq_ok_iff]
  constructor
  · rintro ⟨next, hnext, ⟨rest, _⟩, hrest, h⟩
    cases h
    exact ⟨next, rest, hnext, hrest, rfl⟩
  · rintro ⟨next, rest, hnext, hrest, rfl⟩
    exact ⟨next, hnext, (rest, final), hrest, rfl⟩

/-- **The sweeps that succeed are the sequences of turns of that length.** -/
theorem sweepTurns_eq_ok_iff :
    p.sweepTurns checkpoints turns s = .ok (records, final) ↔
      records.length = turns ∧ p.IsSweep checkpoints s records final := by
  induction turns generalizing s records with
  | zero =>
    constructor
    · intro h
      cases h
      exact ⟨rfl, .done _⟩
    · rintro ⟨hlength, hsweep⟩
      cases hsweep with
      | done => rfl
      | turn => cases hlength
  | succ turns ih =>
    rw [sweepTurns_succ_eq_ok_iff]
    constructor
    · rintro ⟨next, rest, hnext, hrest, rfl⟩
      obtain ⟨hlength, hsweep⟩ := ih.mp hrest
      exact ⟨congrArg (· + 1) hlength, .turn hnext hsweep⟩
    · rintro ⟨hlength, hsweep⟩
      cases hsweep with
      | done => cases hlength
      | turn hnext hsweep => exact ⟨_, _, hnext, ih.mpr ⟨Nat.succ.inj hlength, hsweep⟩, rfl⟩

/-- The state carried over is still in the same turn. -/
theorem carried_turn (p : Program) (checkpoints : List UInt32) (s : BattleState) :
    (p.turnRecord checkpoints s).carried.turn = s.turn := by
  cases checkpoints with
  | nil => rfl
  | cons hp checkpoints => exact (p.final_sameSituation { s with hp }).turn

/-- **A sweep succeeds while turns can be counted.** -/
theorem exists_sweepTurns (p : Program) (checkpoints : List UInt32)
    (h : s.turn.toNat + turns < UInt32.size) :
    ∃ records final, p.sweepTurns checkpoints turns s = .ok (records, final) := by
  induction turns generalizing s with
  | zero => exact ⟨[], s, rfl⟩
  | succ turns ih =>
    have hcarried := p.carried_turn checkpoints s
    obtain ⟨next, hnext⟩ := BattleState.exists_endTurn
      (s := (p.turnRecord checkpoints s).carried) (by rw [hcarried]; omega)
    have hturn := BattleState.toNat_turn_of_endTurn hnext
    rw [hcarried] at hturn
    obtain ⟨rest, final, hrest⟩ := ih (s := next) (by omega)
    exact ⟨_, final, sweepTurns_succ_eq_ok_iff.mpr ⟨next, rest, hnext, hrest, rfl⟩⟩

/-- **What every turn hands on holds at the start of each turn**, and after the last one. -/
theorem IsSweep.invariant {Holds : BattleState → Prop}
    (hstep : ∀ s next, Holds s → (p.turnRecord checkpoints s).carried.endTurn = .ok next →
      Holds next)
    (h : p.IsSweep checkpoints s records final) (hs : Holds s) :
    (∀ r ∈ records, Holds r.start) ∧ Holds final := by
  induction h with
  | done s => exact ⟨by simp, hs⟩
  | turn hnext hrest ih =>
    obtain ⟨hstarts, hfinal⟩ := ih (hstep _ _ hs hnext)
    exact ⟨List.forall_mem_cons.mpr ⟨hs, hstarts⟩, hfinal⟩

/-- **The turns of a sweep are numbered on from the first.** -/
theorem IsSweep.turn_bounds (h : p.IsSweep checkpoints s records final) :
    (∀ r ∈ records, s.turn.toNat ≤ r.start.turn.toNat ∧
        r.start.turn.toNat < s.turn.toNat + records.length) ∧
      final.turn.toNat = s.turn.toNat + records.length := by
  induction h with
  | done s => exact ⟨by simp, rfl⟩
  | turn hnext hrest ih =>
    obtain ⟨hstarts, hfinal⟩ := ih
    have hturn := BattleState.toNat_turn_of_endTurn hnext
    rw [p.carried_turn] at hturn
    rw [List.length_cons]
    refine ⟨List.forall_mem_cons.mpr ⟨?_, fun r hr => ?_⟩, ?_⟩
    · show _ ≤ _ ∧ _ < _
      simp only [turnRecord]
      omega
    · have hbounds := hstarts r hr
      omega
    · omega

/-- Each record is that of the state it starts from. -/
theorem IsSweep.eq_turnRecord (h : p.IsSweep checkpoints s records final) :
    ∀ r ∈ records, r = p.turnRecord checkpoints r.start := by
  induction h with
  | done => simp
  | turn hnext hrest ih => exact List.forall_mem_cons.mpr ⟨rfl, ih⟩

end Program

end EnemyBehavior
