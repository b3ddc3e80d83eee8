import Mathlib.Algebra.Order.Floor.Semifield
import Mathlib.Data.Nat.Cast.Order.Field
import Mathlib.Data.Rat.Floor
import Schemata.Proofs.Number.Binary64
import Schemata.Proofs.Number.Decimal

namespace Schemata.Binary64

/-! The shortest decimal of a binary number lies among the numbers that round to it. One of
seventeen digits always does: on its grid two neighbours are closer to each other than the ends
of the interval are. -/

namespace RoundingInterval

variable {interval : RoundingInterval} {point : Decimal} {exponent : Int}

def lowest (interval : RoundingInterval) : ℚ :=
  interval.low / interval.denominator

def center (interval : RoundingInterval) : ℚ :=
  interval.value / interval.denominator

def highest (interval : RoundingInterval) : ℚ :=
  interval.high / interval.denominator

section

variable {first second third fourth : Nat}

theorem product_lt_product_iff (positive : 0 < second) (positive' : 0 < fourth) :
    first * fourth < third * second ↔ (first : ℚ) / second < third / fourth := by
  rw [div_lt_div_iff₀ (by exact_mod_cast positive) (by exact_mod_cast positive')]
  exact_mod_cast Iff.rfl

theorem product_eq_product_iff (positive : 0 < second) (positive' : 0 < fourth) :
    first * fourth = third * second ↔ (first : ℚ) / second = third / fourth := by
  rw [div_eq_div_iff (by exact_mod_cast positive.ne') (by exact_mod_cast positive'.ne')]
  exact_mod_cast Iff.rfl

end

theorem holds_iff (positive : 0 < interval.denominator) :
    interval.Holds point ↔
      (interval.lowest < point.toRat ∧ point.toRat < interval.highest) ∨
        interval.closed = true ∧
          (interval.lowest = point.toRat ∨ point.toRat = interval.highest) := by
  have bottom := point.fraction_snd_pos
  simp only [Holds, product_lt_product_iff positive bottom, product_lt_product_iff bottom positive,
    product_eq_product_iff positive bottom, product_eq_product_iff bottom positive,
    point.fraction_div]
  rfl

theorem between_of_holds (positive : 0 < interval.denominator)
    (ordered : interval.lowest ≤ interval.highest) (holds : interval.Holds point) :
    interval.lowest ≤ point.toRat ∧ point.toRat ≤ interval.highest := by
  obtain ⟨above, below⟩ | ⟨-, low | high⟩ := (holds_iff positive).mp holds
  · exact ⟨above.le, below.le⟩
  · exact ⟨low.le, low ▸ ordered⟩
  · exact ⟨high ▸ ordered, high.le⟩

/-! Grids. -/

def gridBelow (interval : RoundingInterval) (exponent : Int) : Decimal :=
  let (top, bottom) := scaledFraction 10 interval.value interval.denominator (-exponent)
  ⟨top / bottom, exponent⟩

def gridAbove (interval : RoundingInterval) (exponent : Int) : Decimal :=
  ⟨(interval.gridBelow exponent).digits + 1, exponent⟩

theorem toRat_gridAbove (interval : RoundingInterval) (exponent : Int) :
    (interval.gridAbove exponent).toRat = (interval.gridBelow exponent).toRat + 10 ^ exponent := by
  simp only [gridAbove, gridBelow, Decimal.toRat]
  push_cast
  ring

/-- The center lies between its neighbours on the grid. -/
theorem toRat_gridBelow_le (interval : RoundingInterval) (exponent : Int) :
    (interval.gridBelow exponent).toRat ≤ interval.center ∧
      interval.center < (interval.gridAbove exponent).toRat := by
  have scaled : ((scaledFraction 10 interval.value interval.denominator (-exponent)).1 : ℚ) /
      (scaledFraction 10 interval.value interval.denominator (-exponent)).2 =
        interval.value / interval.denominator * ((10 : Nat) : ℚ) ^ (-exponent) :=
    scaledFraction_div (by decide)
  have positive : (0 : ℚ) < 10 ^ exponent := zpow_pos (by norm_num) _
  have unscaled : interval.center = (interval.value / interval.denominator *
      ((10 : Nat) : ℚ) ^ (-exponent)) * 10 ^ exponent := by
    rw [center, Nat.cast_ofNat, mul_assoc, zpow_neg, inv_mul_cancel₀ positive.ne', mul_one]
  rw [toRat_gridAbove, unscaled, ← scaled]
  simp only [gridBelow, Decimal.toRat]
  generalize (scaledFraction 10 interval.value interval.denominator (-exponent)).1 = top
  generalize (scaledFraction 10 interval.value interval.denominator (-exponent)).2 = bottom
  have above : (top : ℚ) / bottom < (top / bottom : Nat) + 1 := by
    rw [← Nat.floor_div_eq_div (K := ℚ)]
    exact Nat.lt_floor_add_one _
  constructor
  · exact mul_le_mul_of_nonneg_right Nat.cast_div_le positive.le
  · rw [← add_one_mul]
    exact mul_lt_mul_of_pos_right above positive

/-- A number on a grid is one of the two neighbours, and is found if one of them holds. -/
theorem onGrid_cases (interval : RoundingInterval) (exponent : Int) :
    (∃ point, interval.onGrid exponent = some point ∧ interval.Holds point) ∨
      interval.onGrid exponent = none ∧ ¬interval.Holds (interval.gridBelow exponent) ∧
        ¬interval.Holds (interval.gridAbove exponent) := by
  unfold onGrid
  dsimp only
  split
  · next both =>
    rw [Bool.and_eq_true, decide_eq_true_eq, decide_eq_true_eq] at both
    split_ifs
    · exact .inl ⟨_, rfl, both.1⟩
    · exact .inl ⟨_, rfl, both.2⟩
    · exact .inl ⟨_, rfl, both.1⟩
    · exact .inl ⟨_, rfl, both.2⟩
  · split_ifs with below above
    · exact .inl ⟨_, rfl, of_decide_eq_true below⟩
    · exact .inl ⟨_, rfl, of_decide_eq_true above⟩
    · exact .inr ⟨rfl, of_decide_eq_false (Bool.eq_false_iff.mpr below),
        of_decide_eq_false (Bool.eq_false_iff.mpr above)⟩

theorem holds_of_onGrid (found : interval.onGrid exponent = some point) :
    interval.Holds point := by
  rcases interval.onGrid_cases exponent with ⟨other, same, holds⟩ | ⟨absent, -⟩
  · rw [same] at found
    exact Option.some.inj found ▸ holds
  · rw [absent] at found
    cases found

/-- On a grid that is finer than the interval is wide, one of the neighbours holds. -/
theorem isSome_onGrid (positive : 0 < interval.denominator)
    (inside : interval.lowest < interval.center ∧ interval.center < interval.highest)
    (fine : 10 ^ exponent < interval.highest - interval.lowest) :
    (interval.onGrid exponent).isSome = true := by
  obtain ⟨near, next⟩ := interval.toRat_gridBelow_le exponent
  have step := interval.toRat_gridAbove exponent
  rcases interval.onGrid_cases exponent with ⟨point, same, -⟩ | ⟨-, below, above⟩
  · rw [same, Option.isSome_some]
  · rw [holds_iff positive, not_or, not_and_or, not_lt, not_lt] at below above
    rcases below.1 with low | low
    · rcases above.1 with high | high <;> linarith
    · linarith

theorem scaled_center (interval : RoundingInterval) (power : Nat) :
    ((interval.value * Nat.pow 10 power : Nat) : ℚ) / interval.denominator =
      interval.center * 10 ^ power := by
  rw [center, Nat.cast_mul, mul_div_right_comm, Nat.pow_eq, Nat.cast_pow, Nat.cast_ofNat]

theorem pow_digitCount_le (power : Nat) (visible : (10 ^ power : ℚ)⁻¹ ≤ interval.center) :
    (10 : ℚ) ^ ((digitCount (interval.value * Nat.pow 10 power / interval.denominator) : Int) -
      (power + 1 : Nat)) ≤ interval.center := by
  have huge : (0 : ℚ) < 10 ^ power := by positivity
  have scaled := interval.scaled_center power
  generalize interval.value * Nat.pow 10 power = numerator at scaled ⊢
  have below : ((numerator / interval.denominator : Nat) : ℚ) ≤ interval.center * 10 ^ power :=
    scaled ▸ Nat.cast_div_le
  have nonzero : numerator / interval.denominator ≠ 0 := by
    rw [← Nat.floor_div_eq_div (K := ℚ), scaled, ← Nat.one_le_iff_ne_zero]
    refine Nat.le_floor ?_
    rwa [Nat.cast_one, ← inv_le_iff_one_le_mul₀ huge]
  generalize numerator / interval.denominator = whole at below nonzero ⊢
  obtain ⟨count, counted⟩ := Nat.exists_eq_succ_of_ne_zero (digitCount_pos whole).ne'
  have above : (10 : ℚ) ^ count ≤ whole := by
    exact_mod_cast pow_le_of_digitCount nonzero counted
  have split : (digitCount whole : Int) - (power + 1 : Nat) = count - power := by
    rw [counted]
    push_cast
    ring
  rw [split, zpow_sub₀ (by norm_num), zpow_natCast, zpow_natCast, div_le_iff₀ huge]
  exact above.trans below

/-- The power of the leading exponent is no greater than the center. -/
theorem pow_leadingExponent_le (visible : (10 ^ 400 : ℚ)⁻¹ ≤ interval.center) :
    10 ^ interval.leadingExponent ≤ interval.center := by
  have places : (401 : Int) = (400 + 1 : Nat) := rfl
  rw [leadingExponent, places]
  -- With a variable in its place, no number of 400 digits is ever computed.
  generalize 400 = power at visible ⊢
  exact pow_digitCount_le power visible

end RoundingInterval

variable {value : Binary64}

/-! The interval of a number. -/

theorem denominator_pos (value : Binary64) : 0 < value.roundingInterval.denominator := by
  have positive : 0 < (scaledFraction 2 1 4 value.exponent).2 :=
    scaledFraction_snd_pos (by decide) (by decide)
  exact positive

theorem unit_eq (exponent : Int) :
    ((scaledFraction 2 1 4 exponent).1 : ℚ) / (scaledFraction 2 1 4 exponent).2 =
      2 ^ exponent / 4 := by
  rw [scaledFraction_div (by decide)]
  push_cast
  ring

theorem center_eq (value : Binary64) : value.roundingInterval.center = value.magnitude := by
  unfold roundingInterval RoundingInterval.center magnitude
  dsimp only
  rw [Nat.cast_mul, mul_div_assoc, unit_eq]
  push_cast
  ring

theorem highest_eq (value : Binary64) :
    value.roundingInterval.highest = (4 * value.significand + 2) * (2 ^ value.exponent / 4) := by
  unfold roundingInterval RoundingInterval.highest
  dsimp only
  rw [Nat.cast_mul, mul_div_assoc, unit_eq]
  push_cast
  rfl

/-- Below a power of two the lower end is half as far away. -/
theorem exists_lowest_eq (nonzero : value.significand ≠ 0) :
    ∃ gap : ℚ, 1 ≤ gap ∧ gap ≤ 2 ∧ (gap = 2 ∨ value.significand = 2 ^ 52) ∧
      value.roundingInterval.lowest =
        (4 * value.significand - gap) * (2 ^ value.exponent / 4) := by
  have large : 2 ≤ 4 * value.significand := by omega
  unfold roundingInterval RoundingInterval.lowest
  dsimp only
  rw [Nat.cast_mul, mul_div_assoc, unit_eq]
  split
  · next power =>
    refine ⟨1, le_rfl, one_le_two, .inr power.1, ?_⟩
    rw [Nat.cast_sub (by omega)]
    push_cast
    rfl
  · refine ⟨2, one_le_two, le_rfl, .inl rfl, ?_⟩
    rw [Nat.cast_sub large]
    push_cast
    rfl

theorem two_pow_pos (exponent : Int) : (0 : ℚ) < 2 ^ exponent :=
  zpow_pos two_pos exponent

theorem one_le_significand (nonzero : value.significand ≠ 0) : (1 : ℚ) ≤ value.significand := by
  exact_mod_cast Nat.one_le_iff_ne_zero.mpr nonzero

theorem center_inside (nonzero : value.significand ≠ 0) :
    value.roundingInterval.lowest < value.roundingInterval.center ∧
      value.roundingInterval.center < value.roundingInterval.highest := by
  have unit := two_pow_pos value.exponent
  obtain ⟨gap, wide, -, -, lowest⟩ := exists_lowest_eq nonzero
  rw [lowest, center_eq, highest_eq, magnitude]
  constructor <;> nlinarith

theorem visible_center (nonzero : value.significand ≠ 0) :
    (10 ^ 400 : ℚ)⁻¹ ≤ value.roundingInterval.center := by
  have least : (2 : ℚ) ^ (-1074 : Int) ≤ 2 ^ value.exponent :=
    zpow_le_zpow_right₀ one_le_two value.canonical.2.1
  have tiny : (10 ^ 400 : ℚ)⁻¹ ≤ 2 ^ (-1074 : Int) := by
    rw [zpow_neg]
    refine inv_anti₀ (by positivity) ?_
    exact_mod_cast (by decide +kernel : 2 ^ 1074 ≤ 10 ^ 400)
  rw [center_eq, magnitude]
  exact (tiny.trans least).trans
    (le_mul_of_one_le_left (two_pow_pos value.exponent).le (one_le_significand nonzero))

/-- With seventeen digits the grid is fine enough. -/
theorem fine_seventeen (nonzero : value.significand ≠ 0) :
    (10 : ℚ) ^ (value.roundingInterval.leadingExponent - 16) <
      value.roundingInterval.highest - value.roundingInterval.lowest := by
  have unit := two_pow_pos value.exponent
  have leading := RoundingInterval.pow_leadingExponent_le (visible_center nonzero)
  rw [center_eq, magnitude] at leading
  obtain ⟨gap, wide, -, shape, lowest⟩ := exists_lowest_eq nonzero
  have bits : (value.significand : ℚ) < 9007199254740992 := by
    exact_mod_cast value.canonical.lt
  rw [lowest, highest_eq, zpow_sub₀ (by norm_num), div_lt_iff₀ (by norm_num)]
  refine leading.trans_lt ?_
  rcases shape with rfl | power
  · norm_num
    nlinarith
  · rw [power]
    norm_num
    nlinarith

theorem exists_holds_shortest (nonzero : value.significand ≠ 0) :
    ∃ point, value.roundingInterval.Holds point ∧
      value.shortest = point.withoutTrailingZeros := by
  unfold shortest
  rw [if_neg nonzero]
  dsimp only
  cases found : (List.range 17).findSome? fun (places : Nat) =>
      value.roundingInterval.onGrid (value.roundingInterval.leadingExponent - places) with
  | none =>
      have last := List.findSome?_eq_none_iff.mp found 16 (by decide)
      have present := RoundingInterval.isSome_onGrid (denominator_pos value)
        (center_inside nonzero) (fine_seventeen nonzero)
      rw [Nat.cast_ofNat] at last
      rw [last] at present
      cases present
  | some point =>
      obtain ⟨places, -, held⟩ := List.exists_of_findSome?_eq_some found
      exact ⟨point, RoundingInterval.holds_of_onGrid held, rfl⟩

theorem between_shortest (nonzero : value.significand ≠ 0) :
    value.roundingInterval.lowest ≤ value.shortest.toRat ∧
      value.shortest.toRat ≤ value.roundingInterval.highest := by
  obtain ⟨point, holds, same⟩ := exists_holds_shortest nonzero
  obtain ⟨above, below⟩ := center_inside nonzero
  rw [same, Decimal.toRat_withoutTrailingZeros]
  exact RoundingInterval.between_of_holds (denominator_pos value) (above.trans below).le holds

/-! Numbers of seventeen places and more. With the exponent one, whole numbers are two apart, so
that the ends of an interval do not reach the power of ten between them. -/

theorem two_pow_le_one (small : value.exponent ≤ 0) : (2 : ℚ) ^ value.exponent ≤ 1 :=
  zpow_le_one_of_nonpos₀ one_le_two small

theorem four_le_two_pow (large : 2 ≤ value.exponent) : (4 : ℚ) ≤ 2 ^ value.exponent := by
  have steps : (2 : ℚ) ^ (2 : Int) ≤ 2 ^ value.exponent := zpow_le_zpow_right₀ one_le_two large
  exact steps.trans' (by norm_num)

theorem magnitude_of_one (one : value.exponent = 1) : value.magnitude = 2 * value.significand := by
  rw [magnitude, one, zpow_one, mul_comm]

theorem one_le_of_reaches (reaches : 10 ^ 16 ≤ value.magnitude) : 1 ≤ value.exponent := by
  by_contra small
  have unit := two_pow_le_one (Int.not_lt.mp small)
  have bits : (value.significand : ℚ) < 9007199254740992 := by
    exact_mod_cast value.canonical.lt
  have below : value.magnitude ≤ value.significand :=
    mul_le_of_le_one_right (Nat.cast_nonneg _) unit
  linarith

theorem lowest_of_lt (above : 10 ^ 16 < value.magnitude) :
    10 ^ 16 ≤ value.roundingInterval.lowest := by
  have nonzero : value.significand ≠ 0 := by
    intro zero
    rw [magnitude_of_zero zero] at above
    norm_num at above
  obtain ⟨gap, -, narrow, -, lowest⟩ := exists_lowest_eq nonzero
  rw [lowest]
  rcases (one_le_of_reaches above.le).eq_or_lt with one | large
  · rw [magnitude_of_one one.symm] at above
    have next : (5 * 10 ^ 15 + 1 : ℚ) ≤ value.significand := by
      have whole : 10 ^ 16 < 2 * value.significand := by exact_mod_cast above
      exact_mod_cast (by omega : 5 * 10 ^ 15 + 1 ≤ value.significand)
    rw [← one, zpow_one]
    linarith
  · have unit := four_le_two_pow large
    have bits : (4503599627370496 : ℚ) ≤ value.significand := by
      exact_mod_cast value.canonical.normal (by omega)
    nlinarith

theorem highest_of_lt (below : value.magnitude < 10 ^ 16) :
    value.roundingInterval.highest < 10 ^ 16 := by
  rw [highest_eq]
  rcases lt_trichotomy value.exponent 1 with small | one | large
  · have unit := two_pow_le_one (Int.lt_add_one_iff.mp small)
    have bits : (value.significand : ℚ) < 9007199254740992 := by
      exact_mod_cast value.canonical.lt
    have nonneg : (0 : ℚ) ≤ value.significand := Nat.cast_nonneg _
    nlinarith
  · rw [magnitude_of_one one] at below
    have next : (value.significand : ℚ) ≤ 5 * 10 ^ 15 - 1 := by
      have whole : 2 * value.significand < 10 ^ 16 := by exact_mod_cast below
      have most : value.significand + 1 ≤ 5 * 10 ^ 15 := by omega
      exact le_sub_iff_add_le.mpr (by exact_mod_cast most)
    rw [one, zpow_one]
    linarith
  · have unit := four_le_two_pow large
    have bits : (4503599627370496 : ℚ) ≤ value.significand := by
      exact_mod_cast value.canonical.normal (by omega)
    rw [magnitude] at below
    nlinarith

theorem shortest_of_magnitude (exactly : value.magnitude = 10 ^ 16) :
    value.shortest = ⟨1, 16⟩ := by
  have canonical : Canonical64 (5 * 10 ^ 15) 1 := by decide
  have both : ∀ negative, shortest ⟨negative, 5 * 10 ^ 15, 1, canonical⟩ = ⟨1, 16⟩ := by
    decide +kernel +revert
  obtain ⟨significand, exponent⟩ := value.canonical.unique canonical (by
    rw [zpow_one]
    exact exactly.trans (by norm_num))
  obtain ⟨negative, _, _, _⟩ := value
  obtain rfl : _ = _ := significand
  obtain rfl : _ = _ := exponent
  exact both negative

theorem digits_shortest (nonzero : value.significand ≠ 0) : value.shortest.digits ≠ 0 := by
  have unit := two_pow_pos value.exponent
  have one := one_le_significand nonzero
  obtain ⟨gap, -, narrow, -, lowest⟩ := exists_lowest_eq nonzero
  refine Decimal.digits_ne_zero (lt_of_lt_of_le ?_ (between_shortest nonzero).1)
  rw [lowest]
  exact mul_pos (by linarith) (by linarith)

/-- The shortest decimal reaches the power of ten exactly when the number does. -/
theorem shortest_reaches_iff (nonzero : value.significand ≠ 0) :
    10 ^ 16 ≤ value.shortest.toRat ↔ 10 ^ 16 ≤ value.magnitude := by
  obtain ⟨above, below⟩ := between_shortest nonzero
  rcases lt_trichotomy value.magnitude (10 ^ 16) with small | exactly | large
  · exact iff_of_false (below.trans_lt (highest_of_lt small)).not_ge small.not_ge
  · rw [exactly, shortest_of_magnitude exactly]
    exact iff_of_true (by norm_num [Decimal.toRat]) le_rfl
  · exact iff_of_true ((lowest_of_lt large).trans above) large.le

end Schemata.Binary64
