import Mathlib.Algebra.Order.Field.Power
import Mathlib.Data.List.Basic
import Mathlib.Data.List.TakeWhile
import Mathlib.Data.Rat.Cast.Order
import Mathlib.Tactic.Linarith
import Mathlib.Tactic.Ring
import Schemata.Number.Notation

namespace Schemata

/-! The rational numbers that decimals stand for, and the power of ten of their first digit. -/

section

variable {base numerator denominator : Nat} {exponent : Int}

theorem scaledFraction_snd_pos (positive : 0 < base) (nonzero : 0 < denominator) :
    0 < (scaledFraction base numerator denominator exponent).2 :=
  Nat.mul_pos nonzero (Nat.pow_pos positive)

theorem scaledFraction_div (positive : 0 < base) :
    ((scaledFraction base numerator denominator exponent).1 : ℚ) /
        (scaledFraction base numerator denominator exponent).2 =
      numerator / denominator * (base : ℚ) ^ exponent := by
  have nonzero : (base : ℚ) ≠ 0 := by exact_mod_cast positive.ne'
  have split : (base : ℚ) ^ exponent =
      (base : ℚ) ^ exponent.toNat / (base : ℚ) ^ (-exponent).toNat := by
    rw [← zpow_natCast, ← zpow_natCast, ← zpow_sub₀ nonzero]
    congr 1
    omega
  rw [scaledFraction, split, div_mul_div_comm, Nat.pow_eq, Nat.pow_eq]
  push_cast
  rfl

end

/-! Digits. -/

theorem digitCount_pos (value : Nat) : 0 < digitCount value :=
  List.length_pos_of_ne_nil Nat.toDigits_ne_nil

theorem lt_pow_digitCount (value : Nat) : value < 10 ^ digitCount value :=
  (Nat.length_toDigits_le_iff (by decide) (digitCount_pos value)).mp le_rfl

theorem pow_le_of_digitCount {value count : Nat} (nonzero : value ≠ 0)
    (counted : digitCount value = count + 1) : 10 ^ count ≤ value := by
  cases count with
  | zero => exact Nat.one_le_iff_ne_zero.mpr nonzero
  | succ count =>
      by_contra below
      have short := (Nat.length_toDigits_le_iff (by decide) (Nat.succ_pos count)).mpr
        (Nat.lt_of_not_le below)
      rw [digitCount] at counted
      omega

theorem ofDigitChars_zeros (count start : Nat) :
    Nat.ofDigitChars 10 (List.replicate count '0') start = start * 10 ^ count := by
  induction count generalizing start with
  | zero => exact (Nat.mul_one start).symm
  | succ count induction =>
      rw [List.replicate_succ, Nat.ofDigitChars_cons, induction, Nat.sub_self, Nat.add_zero]
      ring

/-- The zeros at the end of the digits are a power of ten in the number. -/
theorem pow_dvd_of_zeros (value : Nat) :
    10 ^ (((Nat.toDigits 10 value).reverse.takeWhile (· = '0')).length) ∣ value := by
  set zeros := (Nat.toDigits 10 value).reverse.takeWhile (· = '0') with zeros_eq
  have all : zeros = List.replicate zeros.length '0' := by
    refine List.eq_replicate_iff.mpr ⟨rfl, fun char member => ?_⟩
    have zero := List.mem_takeWhile_imp (zeros_eq ▸ member)
    exact of_decide_eq_true zero
  have split : Nat.toDigits 10 value =
      ((Nat.toDigits 10 value).reverse.dropWhile (· = '0')).reverse ++
        List.replicate zeros.length '0' := by
    rw [← List.reverse_inj, List.reverse_append, List.reverse_reverse, List.reverse_replicate,
      ← all, zeros_eq, List.takeWhile_append_dropWhile]
  have read : Nat.ofDigitChars 10 (Nat.toDigits 10 value) 0 = value :=
    Nat.ofDigitChars_ten_toDigits
  rw [split, Nat.ofDigitChars_append, ofDigitChars_zeros] at read
  exact Dvd.intro_left _ read

namespace Decimal

def toRat (value : Decimal) : ℚ :=
  value.digits * 10 ^ value.exponent

/-- The power of ten of the first digit. -/
def leading (value : Decimal) : Int :=
  digitCount value.digits + value.exponent - 1

variable {value : Decimal}

theorem digits_ne_zero (positive : 0 < value.toRat) : value.digits ≠ 0 := by
  intro zero
  rw [toRat, zero, Nat.cast_zero, zero_mul] at positive
  exact positive.false

theorem toRat_lt_pow_leading (value : Decimal) : value.toRat < 10 ^ (value.leading + 1) := by
  have ten : (10 : ℚ) ≠ 0 := by norm_num
  have below : (value.digits : ℚ) < 10 ^ digitCount value.digits := by
    exact_mod_cast lt_pow_digitCount value.digits
  rw [leading, sub_add_cancel, zpow_add₀ ten, zpow_natCast]
  exact mul_lt_mul_of_pos_right below (zpow_pos (by norm_num) _)

theorem pow_leading_le_toRat (nonzero : value.digits ≠ 0) : 10 ^ value.leading ≤ value.toRat := by
  have ten : (10 : ℚ) ≠ 0 := by norm_num
  obtain ⟨count, counted⟩ := Nat.exists_eq_succ_of_ne_zero (digitCount_pos value.digits).ne'
  have above : (10 : ℚ) ^ count ≤ value.digits := by
    exact_mod_cast pow_le_of_digitCount nonzero counted
  have split : value.leading = count + value.exponent := by
    rw [leading, counted]
    push_cast
    ring
  rw [split, zpow_add₀ ten, zpow_natCast]
  exact mul_le_mul_of_nonneg_right above (zpow_nonneg (by norm_num) _)

theorem pow_le_toRat_iff (nonzero : value.digits ≠ 0) (power : Int) :
    10 ^ power ≤ value.toRat ↔ power ≤ value.leading := by
  have one : (1 : ℚ) < 10 := by norm_num
  constructor
  · intro reaches
    have between := reaches.trans_lt value.toRat_lt_pow_leading
    exact Int.lt_add_one_iff.mp ((zpow_lt_zpow_iff_right₀ one).mp between)
  · intro within
    exact (zpow_le_zpow_right₀ one.le within).trans (pow_leading_le_toRat nonzero)

theorem toRat_withoutTrailingZeros (value : Decimal) :
    value.withoutTrailingZeros.toRat = value.toRat := by
  unfold withoutTrailingZeros toRat
  dsimp only
  have divides := pow_dvd_of_zeros value.digits
  generalize ((Nat.toDigits 10 value.digits).reverse.takeWhile (· = '0')).length = zeros
    at divides ⊢
  obtain ⟨front, split⟩ := divides
  have quotient : value.digits / Nat.pow 10 zeros = front := by
    rw [split]
    exact Nat.mul_div_cancel_left front (Nat.pow_pos (by decide))
  rw [quotient, split, zpow_add₀ (by norm_num), zpow_natCast]
  push_cast
  ring

theorem fraction_div (value : Decimal) :
    (value.fraction.1 : ℚ) / value.fraction.2 = value.toRat := by
  rw [fraction, scaledFraction_div (by decide), Nat.cast_one, div_one, toRat, Nat.cast_ofNat]

theorem fraction_snd_pos (value : Decimal) : 0 < value.fraction.2 :=
  scaledFraction_snd_pos (by decide) (by decide)

end Decimal

end Schemata
