import Redex.Number.Decimal
import Redex.Proofs.Number.Nearest
import Mathlib.Algebra.Order.Field.Power

/-! The value of a decimal, as a rational. Reading it finds the magnitude nearest to its value: the
exponents that are settled without a power of ten are settled as rounding would. -/
namespace Redex

namespace Binary64.Nearest

variable {v : ℚ} {index : Nat}

/-- Numbers past every finite one. -/
theorem finiteCount_le (nearest : Nearest (v * one) index) (large : (10 : ℚ) ^ (310 : ℤ) ≤ v) :
    finiteCount ≤ index := by
  refine (nearest_units finiteCount).mono nearest ?_
  rw [units_finiteCount, Nat.cast_mul]
  refine mul_le_mul_of_nonneg_right (le_trans ?_ large) (Nat.cast_nonneg _)
  exact_mod_cast (by decide +kernel : 2 ^ 1024 ≤ 10 ^ 310)

/-- Numbers less than half a unit. -/
theorem eq_zero (nearest : Nearest (v * one) index) (nonneg : 0 ≤ v)
    (small : v < (10 : ℚ) ^ (-330 : ℤ)) : index = 0 := by
  refine nearest.unique (.of_close ?_)
  rw [units_zero, Nat.cast_zero, sub_zero, abs_of_nonneg (mul_nonneg nonneg (Nat.cast_nonneg _))]
  have unit : 2 * (one : ℚ) ≤ 10 ^ (330 : ℤ) := by
    exact_mod_cast (by decide +kernel : 2 * one ≤ 10 ^ 330)
  calc 2 * (v * one) = 2 * one * v := by ring
    _ < 2 * one * 10 ^ (-330 : ℤ) := mul_lt_mul_of_pos_left small (mul_pos two_pos positive_one_cast)
    _ ≤ 10 ^ (330 : ℤ) * 10 ^ (-330 : ℤ) := mul_le_mul_of_nonneg_right unit (by positivity)
    _ = 1 := by rw [← zpow_add₀ (by norm_num)]; rfl

end Binary64.Nearest

namespace Decimal

open Binary64 (Nearest one units finiteCount)

variable {x y : Decimal} {index : Nat}

/-- The number that a decimal denotes. -/
def value (x : Decimal) : ℚ := x.coefficient * 10 ^ x.exponent

theorem value_eq_div (x : Decimal) : x.value = x.numerator / x.denominator := by
  unfold value numerator denominator
  simp only [Nat.pow_eq]
  rcases Int.le_total 0 x.exponent with whole | fraction
  · obtain ⟨count, exponent⟩ := Int.eq_ofNat_of_zero_le whole
    simp [exponent]
  · obtain ⟨count, exponent⟩ := Int.eq_ofNat_of_zero_le (Int.neg_nonneg_of_nonpos fraction)
    have negated : x.exponent = -count := by omega
    simp [negated, div_eq_mul_inv]

theorem nearest_value (x : Decimal) : Nearest (x.value * one) x.nearest := by
  have positive : 0 < x.denominator := Nat.pow_pos (by decide)
  have scaled : x.value * one = (x.numerator * one : Nat) / x.denominator := by
    rw [value_eq_div, Nat.cast_mul, div_mul_eq_mul_div]
  rw [scaled]
  exact Binary64.nearest_div _ positive

theorem nearest_eq_iff : x.nearest = index ↔ Nearest (x.value * one) index :=
  ⟨fun same => same ▸ x.nearest_value, x.nearest_value.unique⟩

theorem value_nonneg (x : Decimal) : 0 ≤ x.value :=
  mul_nonneg (Nat.cast_nonneg _) (zpow_nonneg (by norm_num) _)

/-- A coefficient of at least one. -/
theorem power_le_value (some : x.coefficient ≠ 0) : (10 : ℚ) ^ x.exponent ≤ x.value :=
  le_mul_of_one_le_left (zpow_nonneg (by norm_num) _) (by exact_mod_cast Nat.pos_of_ne_zero some)

/-- A coefficient of `count` digits at most. -/
theorem value_lt_power {count : Nat} (short : x.coefficient < 10 ^ count) :
    x.value < (10 : ℚ) ^ (count + x.exponent) := by
  rw [zpow_add₀ (by norm_num), zpow_natCast]
  exact mul_lt_mul_of_pos_right (by exact_mod_cast short) (zpow_pos (by norm_num) _)

theorem finiteCount_le_nearest (some : x.coefficient ≠ 0) (large : 309 < x.exponent) :
    finiteCount ≤ x.nearest :=
  x.nearest_value.finiteCount_le
    ((zpow_le_zpow_right₀ (by norm_num) large).trans (power_le_value some))

theorem nearest_eq_zero (small : x.exponent + x.coefficient.log2 < -330) : x.nearest = 0 := by
  have short : x.coefficient < 10 ^ (x.coefficient.log2 + 1) :=
    Nat.lt_log2_self.trans_le (Nat.pow_le_pow_left (by decide) _)
  refine x.nearest_value.eq_zero x.value_nonneg ?_
  refine (value_lt_power short).trans_le (zpow_le_zpow_right₀ (by norm_num) ?_)
  push_cast
  omega

theorem nearest_of_coefficient_zero (none : x.coefficient = 0) : x.nearest = 0 := by
  rw [nearest_eq_iff, value, none, Nat.cast_zero, zero_mul, zero_mul]
  exact Binary64.nearest_units 0

/-- The exponents that are settled at once are settled as rounding settles them. -/
theorem toBinary64_eq (negative : Bool) (x : Decimal) :
    x.toBinary64 negative = Binary64.ofIndex negative x.nearest := by
  unfold toBinary64
  split
  next none => rw [nearest_of_coefficient_zero none]
  next some =>
    split
    next large =>
      rw [Binary64.ofIndex, dif_neg (finiteCount_le_nearest some large).not_gt]
    next =>
      split
      next small => rw [nearest_eq_zero small]
      next => rfl

end Decimal

end Redex
