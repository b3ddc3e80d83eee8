import Mathlib.Algebra.Order.Field.Power
import Mathlib.Data.Rat.Cast.Order
import Mathlib.Tactic.Linarith
import Mathlib.Tactic.Positivity
import Schemata.Number.Binary64

namespace Schemata

/-! The rational numbers that binary floating-point numbers stand for. Each has one canonical
representation, but for the sign of zero. -/

variable {significand other : Nat} {exponent power : Int}

theorem Canonical64.lt (canonical : Canonical64 significand exponent) :
    significand < 2 ^ 53 :=
  canonical.1

theorem Canonical64.normal (canonical : Canonical64 significand exponent)
    (above : -1074 < exponent) : 2 ^ 52 ≤ significand :=
  canonical.2.2.2.resolve_right above.ne'

theorem Canonical64.significand_eq (canonical : Canonical64 significand exponent)
    (canonical' : Canonical64 other power)
    (same : (significand : ℚ) * 2 ^ exponent = other * 2 ^ power) (below : exponent ≤ power) :
    significand = other ∧ exponent = power := by
  obtain ⟨shift, rfl⟩ := Int.le.dest below
  have shifted : significand = other * 2 ^ shift := by
    rw [zpow_add₀ two_ne_zero, zpow_natCast, mul_comm ((2 : ℚ) ^ exponent),
      ← mul_assoc] at same
    exact_mod_cast mul_right_cancel₀ (zpow_ne_zero exponent two_ne_zero) same
  cases shift with
  | zero => exact ⟨by simpa using shifted, (Int.add_zero exponent).symm⟩
  | succ shift =>
      -- The larger exponent is not the least one, so its significand has all bits already.
      have least : -1074 ≤ exponent := canonical.2.1
      have full := canonical'.normal (by push_cast; omega)
      have small := canonical.lt
      have one : 1 ≤ 2 ^ shift := Nat.one_le_two_pow
      rw [pow_succ] at shifted
      nlinarith

theorem Canonical64.unique (canonical : Canonical64 significand exponent)
    (canonical' : Canonical64 other power)
    (same : (significand : ℚ) * 2 ^ exponent = other * 2 ^ power) :
    significand = other ∧ exponent = power := by
  rcases le_total exponent power with below | above
  · exact canonical.significand_eq canonical' same below
  · exact (canonical'.significand_eq canonical same.symm above).imp Eq.symm Eq.symm

namespace Binary64

def magnitude (value : Binary64) : ℚ :=
  value.significand * 2 ^ value.exponent

def toRat (value : Binary64) : ℚ :=
  if value.negative then -value.magnitude else value.magnitude

variable {value left right : Binary64}

theorem magnitude_nonneg (value : Binary64) : 0 ≤ value.magnitude := by
  unfold magnitude
  positivity

theorem magnitude_pos (nonzero : value.significand ≠ 0) : 0 < value.magnitude := by
  have positive : (0 : ℚ) < value.significand := by
    exact_mod_cast Nat.pos_of_ne_zero nonzero
  exact mul_pos positive (zpow_pos two_pos _)

theorem magnitude_of_zero (zero : value.significand = 0) : value.magnitude = 0 := by
  rw [magnitude, zero, Nat.cast_zero, zero_mul]

theorem abs_toRat (value : Binary64) : |value.toRat| = value.magnitude := by
  unfold toRat
  split
  · rw [abs_neg, abs_of_nonneg value.magnitude_nonneg]
  · exact abs_of_nonneg value.magnitude_nonneg

theorem toRat_neg_iff (nonzero : value.significand ≠ 0) :
    value.toRat < 0 ↔ value.negative = true := by
  have positive := magnitude_pos nonzero
  unfold toRat
  split
  · next negative => exact iff_of_true (neg_neg_of_pos positive) negative
  · next other => exact iff_of_false positive.not_gt other

/-- Numbers are equal exactly when they stand for the same rational number. -/
theorem equals_iff : left.Equals right ↔ left.toRat = right.toRat := by
  constructor
  · rintro (rfl | ⟨zero, zero'⟩)
    · rfl
    · rw [toRat, toRat, magnitude_of_zero zero, magnitude_of_zero zero', neg_zero, ite_self,
        ite_self]
  · intro same
    have magnitudes : left.magnitude = right.magnitude := by
      rw [← abs_toRat, same, abs_toRat]
    obtain ⟨significands, exponents⟩ := left.canonical.unique right.canonical magnitudes
    by_cases zero : left.significand = 0
    · exact .inr ⟨zero, significands ▸ zero⟩
    · have nonzero : right.significand ≠ 0 := significands ▸ zero
      have signs : left.negative = right.negative := by
        rw [Bool.eq_iff_iff, ← toRat_neg_iff zero, ← toRat_neg_iff nonzero, same]
      obtain ⟨_, _, _, _⟩ := left
      obtain ⟨_, _, _, _⟩ := right
      obtain rfl : _ = _ := signs
      obtain rfl : _ = _ := significands
      obtain rfl : _ = _ := exponents
      exact .inl rfl

end Binary64

end Schemata
