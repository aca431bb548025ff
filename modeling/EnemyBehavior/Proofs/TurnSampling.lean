import EnemyBehavior.Proofs.HpCheckpoints
import EnemyBehavior.Proofs.TurnMaps
import EnemyBehavior.Proofs.TurnSweep

/-!
# Sampling HP at the checkpoints loses nothing

A sweep over turns that walks at the checkpoints only sees the same as one that walks at every HP
percentage. What makes this work is that some sampled percentage at or above each percentage leads
to the same walk (`Program.Covers`): the highest percentage that shows a behaviour is then itself
sampled. Full HP is sampled first either way, so the state that is carried over is the same too.

## Main statements

* `Program.Covers.mem_entries` — the entries of a turn, said without the sample
* `Program.IsSweep.resample` — the sample makes no difference to a sweep
* `Program.sweepTurns_at_checkpoints` — checkpoints against all percentages
-/

namespace EnemyBehavior

variable {p : Program} {s final : BattleState} {h c : UInt32} {checkpoints : List UInt32}

/-! ## Samples of HP -/

/-- All HP percentages, descending. -/
def hpPercentages : List UInt32 := (List.range 101).reverse.map UInt32.ofNat

theorem mem_hpPercentages : h ∈ hpPercentages ↔ h ≤ fullHp := by
  have hfull : fullHp.toNat = 100 := rfl
  simp only [hpPercentages, List.mem_map, List.mem_reverse, List.mem_range, UInt32.le_iff_toNat_le]
  constructor
  · rintro ⟨n, hn, rfl⟩
    rw [UInt32.toNat_ofNat_of_lt' (by show n < 4294967296; omega)]
    omega
  · exact fun hle => ⟨h.toNat, by omega, UInt32.ofNat_toNat⟩

theorem hpPercentages_descending : hpPercentages.Pairwise fun a b => b < a := by
  refine List.pairwise_map.mpr (List.pairwise_reverse.mpr ?_)
  refine List.pairwise_lt_range.imp_of_mem fun {a b} ha hb hab => ?_
  rw [List.mem_range] at ha hb
  rw [UInt32.lt_iff_toNat_lt, UInt32.toNat_ofNat_of_lt' (by show a < 4294967296; omega),
    UInt32.toNat_ofNat_of_lt' (by show b < 4294967296; omega)]
  exact hab

namespace Program

/-- The actions of a turn that starts from `s` at this percentage. -/
def actionsAt (p : Program) (s : BattleState) (hp : UInt32) : List Action :=
  (p.probe { s with hp }).actions

theorem actionsAt_eq_of_sameSide (hb : ∀ b ∈ p.hpBoundaries, SameSide h c b) :
    p.actionsAt s h = p.actionsAt s c := congrArg Walk.actions (walk_at_sameSide hb s).1

/-- For each percentage the sample has one at or above it that leads to the same walk. -/
structure Covers (p : Program) (checkpoints : List UInt32) : Prop where
  descending : checkpoints.Pairwise fun a b => b < a
  le_fullHp : ∀ c ∈ checkpoints, c ≤ fullHp
  above : ∀ h ≤ fullHp, ∃ c ∈ checkpoints, h ≤ c ∧ ∀ b ∈ p.hpBoundaries, SameSide h c b

theorem covers_hpCheckpoints (p : Program) : p.Covers p.hpCheckpoints.reverse where
  descending := List.pairwise_reverse.mpr (pairwise_ascending _)
  le_fullHp c hc := le_fullHp_of_mem_hpCheckpoints (List.mem_reverse.mp hc)
  above h hh := by
    obtain ⟨c, hc⟩ := p.exists_checkpoint_above hh
    exact ⟨c, List.mem_reverse.mpr hc.1.1, hc.1.2, fun b hb => sameSide_of_isLeast hh hc hb⟩

theorem covers_hpPercentages (p : Program) : p.Covers hpPercentages where
  descending := hpPercentages_descending
  le_fullHp _ hc := mem_hpPercentages.mp hc
  above h hh := ⟨h, mem_hpPercentages.mpr hh, UInt32.le_refl h, fun _ _ => ⟨.rfl, .rfl⟩⟩

/-- Full HP is sampled first. -/
theorem Covers.head? (hc : p.Covers checkpoints) : checkpoints.head? = some fullHp := by
  obtain ⟨c, hmem, hle, -⟩ := hc.above fullHp (UInt32.le_refl _)
  obtain rfl : c = fullHp := UInt32.le_antisymm (hc.le_fullHp c hmem) hle
  cases checkpoints with
  | nil => cases hmem
  | cons x xs =>
    rcases List.mem_cons.mp hmem with rfl | hmem
    · rfl
    · have hlt := List.rel_of_pairwise_cons hc.descending hmem
      exact absurd hlt (UInt32.not_lt.mpr (hc.le_fullHp x List.mem_cons_self))

/-! ## One turn -/

theorem map_entry_turnRecord (p : Program) (checkpoints : List UInt32) (s : BattleState) :
    (p.turnRecord checkpoints s).probes.map Probe.entry
      = checkpoints.map fun h => (h, p.actionsAt s h) := by
  unfold turnRecord
  rw [List.map_map]
  rfl

theorem entries_turnRecord (hdesc : checkpoints.Pairwise fun a b => b < a) :
    (p.turnRecord checkpoints s).map.entries
      = distinctOn Prod.snd [] (checkpoints.map fun h => (h, p.actionsAt s h)) := by
  have hsamples : Descending (checkpoints.map fun h => (h, p.actionsAt s h)) :=
    List.pairwise_map.mpr hdesc
  rw [TurnRecord.map, map_entry_turnRecord, TurnMap.entries_ofSamples hsamples]

/-- The entries of a turn are the behaviours at sampled percentages, each under the highest one. -/
theorem mem_entries_turnRecord (hdesc : checkpoints.Pairwise fun a b => b < a)
    {actions : List Action} :
    (h, actions) ∈ (p.turnRecord checkpoints s).map.entries ↔
      h ∈ checkpoints ∧ p.actionsAt s h = actions ∧
        ∀ x ∈ checkpoints, h < x → p.actionsAt s x ≠ actions := by
  rw [entries_turnRecord hdesc, mem_distinctOn]
  constructor
  · rintro ⟨-, as, bs, hsplit, has⟩
    obtain ⟨above, rest, rfl, rfl, hrest⟩ := List.map_eq_append_iff.mp hsplit
    obtain ⟨x, below, rfl, hx, rfl⟩ := List.map_eq_cons_iff.mp hrest
    obtain ⟨rfl, rfl⟩ := Prod.mk.inj hx
    refine ⟨by simp, rfl, fun y hy hlt => ?_⟩
    rcases List.mem_append.mp hy with hy | hy
    · exact has (y, p.actionsAt s y) (List.mem_map_of_mem hy)
    · rcases List.mem_cons.mp hy with rfl | hy
      · exact absurd hlt (UInt32.lt_irrefl _)
      · have htail := (List.pairwise_append.mp hdesc).2.1
        exact absurd hlt (UInt32.lt_asymm (List.rel_of_pairwise_cons htail hy))
  · rintro ⟨hmem, rfl, hmax⟩
    obtain ⟨above, below, rfl⟩ := List.append_of_mem hmem
    refine ⟨List.not_mem_nil, above.map fun x => (x, p.actionsAt s x),
      below.map fun x => (x, p.actionsAt s x), by simp, ?_⟩
    intro e he
    obtain ⟨x, hx, rfl⟩ := List.mem_map.mp he
    have hlt : h < x := (List.pairwise_append.mp hdesc).2.2 x hx h List.mem_cons_self
    exact hmax x (List.mem_append_left _ hx) hlt

/-- **The entries of a turn, said without the sample**: each behaviour stands under the highest
percentage that shows it. -/
theorem Covers.mem_entries (hc : p.Covers checkpoints) {actions : List Action} :
    (h, actions) ∈ (p.turnRecord checkpoints s).map.entries ↔
      IsGreatest {x | x ≤ fullHp ∧ p.actionsAt s x = actions} h := by
  rw [mem_entries_turnRecord hc.descending]
  constructor
  · rintro ⟨hmem, rfl, hmax⟩
    refine ⟨⟨hc.le_fullHp h hmem, rfl⟩, ?_⟩
    rintro x ⟨hx, hsame⟩
    -- a higher percentage with this behaviour would have a sampled one above it
    obtain ⟨c, hcmem, hle, hside⟩ := hc.above x hx
    have hactions : p.actionsAt s c = p.actionsAt s h := by
      rw [← actionsAt_eq_of_sameSide hside, hsame]
    have hch : ¬ h < c := fun hlt => hmax c hcmem hlt hactions
    exact UInt32.le_trans hle (UInt32.not_lt.mp hch)
  · rintro ⟨⟨hh, rfl⟩, hmax⟩
    obtain ⟨c, hcmem, hle, hside⟩ := hc.above h hh
    have hactions : p.actionsAt s c = p.actionsAt s h := (actionsAt_eq_of_sameSide hside).symm
    obtain rfl : c = h :=
      UInt32.le_antisymm (hmax ⟨hc.le_fullHp c hcmem, hactions⟩) hle
    refine ⟨hcmem, rfl, fun x hx hlt hsame => ?_⟩
    exact absurd (hmax ⟨hc.le_fullHp x hx, hsame⟩) (UInt32.not_le.mpr hlt)

/-- A behaviour is in the map of the turn exactly once. -/
theorem Covers.filter_entries (hc : p.Covers checkpoints) (s : BattleState) (hh : h ≤ fullHp) :
    ∃ top, IsGreatest {x | x ≤ fullHp ∧ p.actionsAt s x = p.actionsAt s h} top ∧
      (p.turnRecord checkpoints s).map.entries.filter (·.2 = p.actionsAt s h)
        = [(top, p.actionsAt s h)] := by
  obtain ⟨c, hcmem, -, hside⟩ := hc.above h hh
  have hactions : p.actionsAt s h = p.actionsAt s c := actionsAt_eq_of_sameSide hside
  have hkey : p.actionsAt s h ∈ (p.turnRecord checkpoints s).map.entries.map Prod.snd := by
    rw [entries_turnRecord hc.descending, mem_map_distinctOn, hactions]
    exact ⟨by simpa using ⟨c, hcmem, rfl⟩, List.not_mem_nil⟩
  obtain ⟨⟨top, actions⟩, hentry, rfl⟩ := List.mem_map.mp hkey
  have htop := hc.mem_entries.mp hentry
  refine ⟨top, htop, TurnMap.eq_of_descending ?_ (List.pairwise_singleton _ _) fun e => ?_⟩
  · exact List.Pairwise.filter _ (p.turnRecord checkpoints s).map.descending
  · obtain ⟨x, actions'⟩ := e
    rw [List.mem_filter, List.mem_singleton, decide_eq_true_eq]
    constructor
    · rintro ⟨hx, rfl⟩
      have hgreatest := hc.mem_entries.mp hx
      rw [UInt32.le_antisymm (htop.2 hgreatest.1) (hgreatest.2 htop.1)]
    · intro he
      obtain ⟨rfl, rfl⟩ := Prod.mk.inj he
      exact ⟨hentry, rfl⟩

theorem carried_of_head? {hp : UInt32} (hhead : checkpoints.head? = some hp) :
    (p.turnRecord checkpoints s).carried = (p.trace { s with hp }).final := by
  cases checkpoints with
  | nil => cases hhead
  | cons x xs =>
    cases hhead
    rfl

/-! ## All turns -/

variable {others : List UInt32} {records : List TurnRecord}

/-- **The sample makes no difference to a sweep.** -/
theorem IsSweep.resample (hc : p.Covers checkpoints) (hc' : p.Covers others)
    (h : p.IsSweep checkpoints s records final) :
    ∃ records', p.IsSweep others s records' final ∧
      records'.map TurnRecord.map = records.map TurnRecord.map := by
  induction h with
  | done s => exact ⟨[], .done s, rfl⟩
  | turn hnext hrest ih =>
    next s next final records =>
    obtain ⟨records', hsweep, hmaps⟩ := ih
    have hcarried : (p.turnRecord others s).carried = (p.turnRecord checkpoints s).carried := by
      rw [carried_of_head? hc.head?, carried_of_head? hc'.head?]
    have hmap : (p.turnRecord others s).map = (p.turnRecord checkpoints s).map := by
      refine TurnMap.ext_of_mem_iff fun e => ?_
      rw [hc'.mem_entries, hc.mem_entries]
    refine ⟨p.turnRecord others s :: records', .turn ?_ hsweep, ?_⟩
    · rw [hcarried]
      exact hnext
    · rw [List.map_cons, List.map_cons, hmap, hmaps]

/-- **Sampling HP at the checkpoints loses nothing**: unless the turns run out of numbers, both
sweeps give the same ten maps and the same state, and on each turn every behaviour is recorded
exactly once, under the highest percentage that shows it. -/
theorem sweepTurns_at_checkpoints (p : Program) (s : BattleState)
    (hturn : s.turn.toNat + sweepTurnCount < UInt32.size) :
    ∃ sampled exhaustive final,
      p.sweepTurns p.hpCheckpoints.reverse sweepTurnCount s = .ok (sampled, final) ∧
      p.sweepTurns hpPercentages sweepTurnCount s = .ok (exhaustive, final) ∧
      sampled.length = sweepTurnCount ∧
      exhaustive.map TurnRecord.map = sampled.map TurnRecord.map ∧
      ∀ r ∈ sampled, ∀ h ≤ fullHp,
        ∃ top, IsGreatest {x | x ≤ fullHp ∧ p.actionsAt r.start x = p.actionsAt r.start h} top ∧
          r.map.entries.filter (·.2 = p.actionsAt r.start h) = [(top, p.actionsAt r.start h)] := by
  obtain ⟨sampled, final, hsampled⟩ := p.exists_sweepTurns p.hpCheckpoints.reverse hturn
  obtain ⟨hlength, hsweep⟩ := sweepTurns_eq_ok_iff.mp hsampled
  obtain ⟨exhaustive, hsweep', hmaps⟩ :=
    hsweep.resample p.covers_hpCheckpoints p.covers_hpPercentages
  have hlength' : exhaustive.length = sweepTurnCount := by
    rw [← hlength, ← List.length_map TurnRecord.map, hmaps, List.length_map]
  refine ⟨sampled, exhaustive, final, hsampled, sweepTurns_eq_ok_iff.mpr ⟨hlength', hsweep'⟩,
    hlength, hmaps, fun r hr h hh => ?_⟩
  obtain ⟨top, htop, hfilter⟩ := p.covers_hpCheckpoints.filter_entries r.start hh
  rw [← hsweep.eq_turnRecord r hr] at hfilter
  exact ⟨top, htop, hfilter⟩

/-- A sweep from the first turn of a battle, with a gate that closes after its first use. -/
theorem sweepTurns_at_checkpoints_of_enrageBelowHalf :
    (BattleState.start 7).turn.toNat + sweepTurnCount < UInt32.size ∧
    ∃ sampled exhaustive final,
      enrageBelowHalf.sweepTurns enrageBelowHalf.hpCheckpoints.reverse sweepTurnCount (.start 7)
        = .ok (sampled, final) ∧
      enrageBelowHalf.sweepTurns hpPercentages sweepTurnCount (.start 7)
        = .ok (exhaustive, final) ∧
      sampled.length = sweepTurnCount ∧
      exhaustive.map TurnRecord.map = sampled.map TurnRecord.map ∧
      ∀ r ∈ sampled, ∀ h ≤ fullHp,
        ∃ top, IsGreatest {x | x ≤ fullHp ∧
            enrageBelowHalf.actionsAt r.start x = enrageBelowHalf.actionsAt r.start h} top ∧
          r.map.entries.filter (·.2 = enrageBelowHalf.actionsAt r.start h)
            = [(top, enrageBelowHalf.actionsAt r.start h)] :=
  ⟨by decide, sweepTurns_at_checkpoints enrageBelowHalf (.start 7) (by decide)⟩

end Program

end EnemyBehavior
