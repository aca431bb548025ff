/-!
# Fixed-width words

The data of an enemy is made of 32-bit and 64-bit words. Two disciplines are used on them.

* **Exact** operations give the integer result or report that no word holds it
  (`checkedAdd`, `checkedNeg`, `exactUInt32?`, `exactUInt64?`).
* **Nearest** operations give the word closest to the integer result
  (`nearestInt64`, `nearestUInt32`), which is what registers and clamped parameters use.

## Main statements

* `toInt_nearestInt64` — the nearest word of an integer in range is that integer
* `toInt_nearestInt64_eq` — the nearest word of any integer
* `checkedAdd_eq_ok_iff`, `checkedNeg_eq_ok_iff` — when an exact operation has a result
* `exactUInt32?_eq_some_iff`, `exactUInt64?_eq_some_iff` — an exact word is the integer itself
* `bind_eq_ok_iff`, `exists_bind_iff` — steps one after another succeed if each of them does
* `bind_eq_error_iff`, `mapError_eq_error_iff` — where an error comes from
* `exists_exactInt64_iff`, `toNat_nearestUInt32` — when an exact word exists, and the nearest one
-/

namespace EnemyBehavior

/-! ## Overflow -/

/-- An exact operation whose integer result fits no word of its type. -/
inductive Overflow where
  | addition
  | negation
deriving DecidableEq

/-- The text an overflow is reported with. -/
def Overflow.message : Overflow → String
  | .addition => "attempt to add with overflow"
  | .negation => "attempt to negate with overflow"

/-! ## Results of steps that may fail -/

theorem bind_eq_ok_iff {ε α β : Type} {x : Except ε α} {f : α → Except ε β} {b : β} :
    x >>= f = .ok b ↔ ∃ a, x = .ok a ∧ f a = .ok b := by
  cases x <;> simp [bind, Except.bind]

theorem map_eq_ok_iff {ε α β : Type} {f : α → β} {x : Except ε α} {b : β} :
    x.map f = .ok b ↔ ∃ a, x = .ok a ∧ f a = b := by
  cases x <;> simp [Except.map]

theorem mapError_eq_ok_iff {ε ε' α : Type} {f : ε → ε'} {x : Except ε α} {a : α} :
    x.mapError f = .ok a ↔ x = .ok a := by
  cases x with
  | error e => constructor <;> intro h <;> cases h
  | ok b => exact ⟨fun h => congrArg _ (Except.ok.inj h), fun h => congrArg _ (Except.ok.inj h)⟩

theorem bind_eq_error_iff {ε α β : Type} {x : Except ε α} {f : α → Except ε β} {e : ε} :
    x >>= f = .error e ↔ x = .error e ∨ ∃ a, x = .ok a ∧ f a = .error e := by
  cases x <;> simp [bind, Except.bind]

theorem map_eq_error_iff {ε α β : Type} {f : α → β} {x : Except ε α} {e : ε} :
    x.map f = .error e ↔ x = .error e := by
  cases x <;> simp [Except.map]

theorem mapError_eq_error_iff {ε ε' α : Type} {f : ε → ε'} {x : Except ε α} {e : ε'} :
    x.mapError f = .error e ↔ ∃ cause, x = .error cause ∧ f cause = e := by
  cases x with
  | ok a =>
    constructor
    · intro h
      cases h
    · rintro ⟨cause, h, -⟩
      cases h
  | error cause =>
    constructor
    · intro h
      exact ⟨cause, rfl, Except.error.inj h⟩
    · rintro ⟨_, h, rfl⟩
      cases h
      rfl

theorem exists_bind_iff {ε α β : Type} {x : Except ε α} {f : α → Except ε β} :
    (∃ b, x >>= f = .ok b) ↔ ∃ a, x = .ok a ∧ ∃ b, f a = .ok b := by
  cases x <;> simp [bind, Except.bind]

theorem exists_map_iff {ε α β : Type} {f : α → β} {x : Except ε α} :
    (∃ b, x.map f = .ok b) ↔ ∃ a, x = .ok a := by
  cases x <;> simp [Except.map]

/-! ## Signed words -/

/-- The integers a signed 64-bit word holds. -/
def FitsInt64 (i : Int) : Prop := -9223372036854775808 ≤ i ∧ i < 9223372036854775808

instance (i : Int) : Decidable (FitsInt64 i) := inferInstanceAs (Decidable (_ ∧ _))

theorem fitsInt64_toInt (a : Int64) : FitsInt64 a.toInt :=
  ⟨Int64.le_toInt a, Int64.toInt_lt a⟩

theorem toInt_ofInt_of_fits {i : Int} (h : FitsInt64 i) : (Int64.ofInt i).toInt = i :=
  Int64.toInt_ofInt_of_le h.1 h.2

/-- The signed word nearest to an integer. -/
def nearestInt64 (i : Int) : Int64 :=
  if i < -9223372036854775808 then Int64.minValue
  else if 9223372036854775808 ≤ i then Int64.maxValue
  else Int64.ofInt i

theorem toInt_nearestInt64 {i : Int} (h : FitsInt64 i) : (nearestInt64 i).toInt = i := by
  have h1 : ¬ i < -9223372036854775808 := Int.not_lt.mpr h.1
  have h2 : ¬ 9223372036854775808 ≤ i := Int.not_le.mpr h.2
  rw [nearestInt64, if_neg h1, if_neg h2, toInt_ofInt_of_fits h]

/-- The nearest word of an integer out of range is an end of the range. -/
theorem toInt_nearestInt64_eq (i : Int) :
    (nearestInt64 i).toInt = max (-9223372036854775808) (min i 9223372036854775807) := by
  by_cases hfits : FitsInt64 i
  · rw [toInt_nearestInt64 hfits]
    unfold FitsInt64 at hfits
    omega
  · unfold FitsInt64 at hfits
    unfold nearestInt64
    split
    · next hlow =>
      show (-9223372036854775808 : Int) = _
      omega
    · next hlow =>
      rw [if_pos (by omega)]
      show (9223372036854775807 : Int) = _
      omega

/-- The sum, held at the ends of the range. -/
def saturatingAdd (a b : Int64) : Int64 := nearestInt64 (a.toInt + b.toInt)

/-- The difference, held at the ends of the range. -/
def saturatingSub (a b : Int64) : Int64 := nearestInt64 (a.toInt - b.toInt)

/-- The word equal to an integer, or `cause` when there is none. -/
def exactInt64 (cause : Overflow) (i : Int) : Except Overflow Int64 :=
  if FitsInt64 i then .ok (Int64.ofInt i) else .error cause

def checkedAdd (a b : Int64) : Except Overflow Int64 := exactInt64 .addition (a.toInt + b.toInt)

/-- The exact opposite. Only the least word has none. -/
def checkedNeg (a : Int64) : Except Overflow Int64 := exactInt64 .negation (-a.toInt)

theorem exactInt64_eq_ok_iff {cause : Overflow} {i : Int} {w : Int64} :
    exactInt64 cause i = .ok w ↔ w.toInt = i := by
  unfold exactInt64
  split
  · rename_i h
    rw [Except.ok.injEq]
    constructor
    · rintro rfl
      exact toInt_ofInt_of_fits h
    · rintro rfl
      exact Int64.ofInt_toInt w
  · rename_i h
    constructor
    · intro e
      cases e
    · rintro rfl
      exact absurd (fitsInt64_toInt w) h

theorem exists_exactInt64_iff {cause : Overflow} {i : Int} :
    (∃ w, exactInt64 cause i = .ok w) ↔ FitsInt64 i := by
  unfold exactInt64
  split
  · next h => exact iff_of_true ⟨_, rfl⟩ h
  · next h => exact iff_of_false nofun h

theorem checkedAdd_eq_ok_iff {a b w : Int64} :
    checkedAdd a b = .ok w ↔ w.toInt = a.toInt + b.toInt := exactInt64_eq_ok_iff

theorem checkedNeg_eq_ok_iff {a w : Int64} :
    checkedNeg a = .ok w ↔ w.toInt = -a.toInt := exactInt64_eq_ok_iff

/-! ## Unsigned words -/

/-- The integers an unsigned 32-bit word holds. -/
def FitsUInt32 (i : Int) : Prop := 0 ≤ i ∧ i < 4294967296

instance (i : Int) : Decidable (FitsUInt32 i) := inferInstanceAs (Decidable (_ ∧ _))

/-- The integers an unsigned 64-bit word holds. -/
def FitsUInt64 (i : Int) : Prop := 0 ≤ i ∧ i < 18446744073709551616

instance (i : Int) : Decidable (FitsUInt64 i) := inferInstanceAs (Decidable (_ ∧ _))

/-- The 32-bit word equal to an integer. -/
def exactUInt32? (i : Int) : Option UInt32 :=
  if FitsUInt32 i then some (UInt32.ofNat i.toNat) else none

/-- The 64-bit word equal to an integer. -/
def exactUInt64? (i : Int) : Option UInt64 :=
  if FitsUInt64 i then some (UInt64.ofNat i.toNat) else none

theorem exactUInt32?_eq_some_iff {i : Int} {w : UInt32} :
    exactUInt32? i = some w ↔ (w.toNat : Int) = i := by
  unfold exactUInt32?
  have hw : w.toNat < 4294967296 := w.toNat_lt
  split
  · rename_i h
    have hi : i.toNat < 4294967296 := by have := h.2; omega
    rw [Option.some.injEq]
    constructor
    · rintro rfl
      rw [UInt32.toNat_ofNat_of_lt' hi, Int.toNat_of_nonneg h.1]
    · rintro rfl
      exact UInt32.ofNat_toNat
  · rename_i h
    refine ⟨nofun, ?_⟩
    rintro rfl
    exact absurd ⟨Int.natCast_nonneg _, Int.ofNat_lt.mpr hw⟩ h

theorem exactUInt64?_eq_some_iff {i : Int} {w : UInt64} :
    exactUInt64? i = some w ↔ (w.toNat : Int) = i := by
  unfold exactUInt64?
  have hw : w.toNat < 18446744073709551616 := w.toNat_lt
  split
  · rename_i h
    have hi : i.toNat < 18446744073709551616 := by have := h.2; omega
    rw [Option.some.injEq]
    constructor
    · rintro rfl
      rw [UInt64.toNat_ofNat_of_lt' hi, Int.toNat_of_nonneg h.1]
    · rintro rfl
      exact UInt64.ofNat_toNat
  · rename_i h
    refine ⟨nofun, ?_⟩
    rintro rfl
    exact absurd ⟨Int.natCast_nonneg _, Int.ofNat_lt.mpr hw⟩ h

/-- The unsigned 32-bit word nearest to an integer. -/
def nearestUInt32 (i : Int) : UInt32 :=
  if i < 0 then 0 else if 4294967296 ≤ i then 4294967295 else UInt32.ofNat i.toNat

theorem toNat_nearestUInt32 (i : Int) :
    ((nearestUInt32 i).toNat : Int) = max 0 (min i 4294967295) := by
  unfold nearestUInt32
  split
  · next h =>
    show (0 : Int) = _
    omega
  · next h =>
    split
    · next h' =>
      show (4294967295 : Int) = _
      omega
    · next h' =>
      rw [UInt32.toNat_ofNat_of_lt' (show i.toNat < 4294967296 by omega)]
      omega

end EnemyBehavior
