import EnemyBehavior.Json.Token
import Mathlib.Data.Nat.Log

/-!
# Whole numbers in decimal digits

The digits that a number is written in have that number for value, and the first of them is zero
only if it is the only one. A number of at most 64 bits does not lose digits when it is read, and is
far from being too large for a double.

## Main statements

* `Decimal.value_toDigits` — the value of the digits
* `Json.isWholePart_toDigits` — the first digit
* `Decimal.exceedsDouble_toDigits` — numbers of at most 64 bits are no huge numbers
-/

namespace EnemyBehavior

namespace Decimal

variable {n : Nat} {digits : List Char}

/-! ## Digits -/

theorem value_toDigits (n : Nat) : value (Nat.toDigits 10 n) = n := Nat.ofDigitChars_ten_toDigits

theorem all_isDigit_toDigits (n : Nat) : ∀ c ∈ Nat.toDigits 10 n, c.isDigit = true :=
  fun _ => Nat.isDigit_of_mem_toDigits (by decide) (by decide)

/-- Further digits do not make a number smaller. -/
theorem le_ofDigitChars (digits : List Char) (n : Nat) : n ≤ Nat.ofDigitChars 10 digits n := by
  induction digits generalizing n with
  | nil => exact Nat.le_refl n
  | cons d ds ih =>
    rw [Nat.ofDigitChars_cons]
    exact Nat.le_trans (by omega) (ih _)

/-- Digits of a number that fits into 64 bits are all counted. -/
theorem appendDigits_of_lt (h : Nat.ofDigitChars 10 digits n < UInt64.size) :
    appendDigits n digits = (Nat.ofDigitChars 10 digits n, 0) := by
  induction digits generalizing n with
  | nil => rfl
  | cons d ds ih =>
    rw [Nat.ofDigitChars_cons] at h ⊢
    have hfits : 10 * n + (d.toNat - 48) < UInt64.size :=
      Nat.lt_of_le_of_lt (le_ofDigitChars ds _) h
    unfold appendDigits
    exact (if_pos hfits).trans (ih h)

/-! ## Doubles -/

/-- Rounding to a double at most doubles a number. -/
theorem nearestDouble_le (n : Nat) (hn : n ≠ 0) : nearestDouble n ≤ 2 * n := by
  unfold nearestDouble
  have hunit : 1 <<< (n.log2 - 52) ≤ n := by
    rw [Nat.one_shiftLeft]
    exact (Nat.pow_le_pow_right (by decide) (Nat.sub_le _ _)).trans (Nat.log2_self_le hn)
  generalize 1 <<< (n.log2 - 52) = unit at hunit ⊢
  have hq : n / unit * unit ≤ n := Nat.div_mul_le_self n unit
  dsimp only
  split
  · omega
  · rw [Nat.add_mul]
    omega

theorem doubleBound_large : 2 * UInt64.size * 2 ≤ doubleBound := by decide

/-- **A number of at most 64 bits is no huge number.** -/
theorem exceedsDouble_toDigits (h : n < UInt64.size) :
    exceedsDouble (Nat.toDigits 10 n) [] 0 = false := by
  have hvalue : Nat.ofDigitChars 10 (Nat.toDigits 10 n) 0 = n := Nat.ofDigitChars_ten_toDigits
  have hdigits : appendDigits 0 (Nat.toDigits 10 n) = (n, 0) := by
    rw [appendDigits_of_lt (hvalue.symm ▸ h), hvalue]
  unfold exceedsDouble
  rw [hdigits]
  by_cases hzero : n = 0
  · subst hzero
    rfl
  · have hone : nearestDouble 1 = 1 := by decide
    have hround : nearestDouble n ≤ 2 * n := nearestDouble_le n hzero
    have hlarge := doubleBound_large
    show (n != 0 && (308 < 0 || decide (doubleBound ≤ nearestDouble n * nearestDouble 1))) = false
    rw [hone, decide_eq_false (by omega : ¬ doubleBound ≤ nearestDouble n * 1)]
    simp

end Decimal

namespace Json

theorem exists_toDigits_eq_cons {n : Nat} (hn : n ≠ 0) :
    ∃ d ds, Nat.toDigits 10 n = d :: ds ∧ d ≠ '0' := by
  induction n using Nat.strong_induction_on with
  | _ n ih =>
    rw [Nat.toDigits_eq_if (by decide)]
    split
    · exact ⟨_, [], rfl, fun h => hn (Nat.digitChar_eq_zero.mp h)⟩
    · obtain ⟨d, ds, hdigits, hd⟩ := ih (n / 10) (by omega) (by omega)
      exact ⟨d, ds ++ [(n % 10).digitChar], by rw [hdigits, List.cons_append], hd⟩

/-- **The digits of a number start with zero only if there is no other.** -/
theorem isWholePart_toDigits (n : Nat) : isWholePart (Nat.toDigits 10 n) = true := by
  by_cases hn : n = 0
  · subst hn
    rfl
  · obtain ⟨d, ds, hdigits, hd⟩ := exists_toDigits_eq_cons hn
    have hall : (d :: ds).all Char.isDigit = true :=
      List.all_eq_true.mpr (hdigits ▸ Decimal.all_isDigit_toDigits n)
    rw [hdigits]
    unfold isWholePart
    split
    · contradiction
    · rfl
    · next heq =>
      obtain ⟨rfl, rfl⟩ := List.cons.inj heq
      simp [hd, hall]

end Json

end EnemyBehavior
