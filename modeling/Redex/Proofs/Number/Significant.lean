import Redex.Proofs.Number.Decimal
import Redex.Proofs.Number.Spelling
import Redex.Proofs.Text.Trimming
import Mathlib.Data.List.Induction

/-! The significant digits of a number and the place of its point. Digits that neither begin nor end
with a zero are those of one coefficient, a positive number is `0.digits * 10 ^ point` for one
choice of the two, and the point tells how large it is. Zeros at either end of digits as they are
printed only move the point. -/
namespace Redex

open Numeral
open Binary64 (Nearest one finiteCount)

/-- Digits without a zero at either end. -/
structure Significant (digits : List Char) : Prop where
  all : Digits digits
  nonempty : digits ≠ []
  first : digits.head? ≠ some '0'
  last : digits.getLast? ≠ some '0'

/-- The decimal `0.digits * 10 ^ point`. -/
def pointed (digits : List Char) (point : Int) : Decimal :=
  ⟨ofDigits digits, point - digits.length⟩

variable {digits other whole fraction : List Char} {c : Char} {n : Nat} {point place exponent : Int}

/-! ## The coefficient -/

theorem ofDigits_concat (digits : List Char) (c : Char) :
    ofDigits (digits ++ [c]) = 10 * ofDigits digits + (c.toNat - '0'.toNat) :=
  List.foldl_concat ..

/-- A digit by its value. -/
theorem exists_digitChar (digit : c.isDigit = true) : ∃ value < 10, c = Nat.digitChar value ∧
    c.toNat - '0'.toNat = value := by
  have range : c.toNat < 58 ∧ 48 ≤ c.toNat := by
    simp only [Char.isDigit, Bool.and_eq_true, decide_eq_true_eq] at digit
    exact ⟨Nat.lt_succ_of_le (UInt32.le_iff_toNat_le.mp digit.2), UInt32.le_iff_toNat_le.mp digit.1⟩
  have known : ∀ n < 58, 48 ≤ n → Char.ofNat n = Nat.digitChar (n - 48) := by decide
  refine ⟨c.toNat - 48, by omega, ?_, rfl⟩
  rw [← known _ range.1 range.2, Char.ofNat_toNat]

theorem ofDigits_lt (all : Digits digits) : ofDigits digits < 10 ^ digits.length := by
  induction digits using List.reverseRecOn with
  | nil => exact Nat.one_pos
  | append_singleton digits c ih =>
    obtain ⟨value, below, -, value_eq⟩ := exists_digitChar (all c (by simp))
    have short := ih (digits_append.mp all).1
    rw [ofDigits_concat, value_eq, List.length_append, List.length_singleton, Nat.pow_succ]
    omega

theorem ofDigits_pos (all : Digits digits) (nonempty : digits ≠ [])
    (first : digits.head? ≠ some '0') : 0 < ofDigits digits := by
  obtain ⟨c, rest, rfl⟩ := List.exists_cons_of_ne_nil nonempty
  obtain ⟨value, -, rfl, value_eq⟩ := exists_digitChar (all c List.mem_cons_self)
  have some : value ≠ 0 := by
    rintro rfl
    exact first rfl
  have leading : ofDigits [Nat.digitChar value] = value := (Nat.zero_add _).trans value_eq
  rw [← List.singleton_append, ofDigits_append, leading]
  exact Nat.add_pos_left (Nat.mul_pos (Nat.pow_pos (by decide)) (Nat.pos_of_ne_zero some)) _

/-- Digits that do not begin with a zero are those of the number they denote. -/
theorem toDigits_ofDigits (all : Digits digits) (nonempty : digits ≠ [])
    (first : digits.head? ≠ some '0') : Nat.toDigits 10 (ofDigits digits) = digits := by
  induction digits using List.reverseRecOn with
  | nil => exact absurd rfl nonempty
  | append_singleton digits c ih =>
    obtain ⟨value, below, rfl, value_eq⟩ := exists_digitChar (all c (by simp))
    rw [ofDigits_concat, value_eq]
    rcases eq_or_ne digits [] with rfl | before
    · exact (congrArg _ (Nat.zero_add value)).trans (Nat.toDigits_of_lt_base below)
    · have init := (digits_append.mp all).1
      rw [List.head?_append_of_ne_nil _ before] at first
      rw [← Nat.toDigits_append_toDigits (by decide) (ofDigits_pos init before first) below,
        ih init before first, Nat.toDigits_of_lt_base below]

namespace Significant

theorem ofDigits_lt_iff (significant : Significant digits) {count : Nat} (positive : 0 < count) :
    ofDigits digits < 10 ^ count ↔ digits.length ≤ count := by
  rw [← Nat.length_toDigits_le_iff (by decide) positive,
    toDigits_ofDigits significant.all significant.nonempty significant.first]

theorem pow_le_ofDigits (significant : Significant digits) :
    10 ^ (digits.length - 1) ≤ ofDigits digits := by
  have some := List.length_pos_iff.mpr significant.nonempty
  rcases Nat.eq_or_lt_of_le (Nat.one_le_iff_ne_zero.mpr some.ne') with single | more
  · rw [← single]
    exact ofDigits_pos significant.all significant.nonempty significant.first
  · rw [← not_lt, significant.ofDigits_lt_iff (by omega)]
    omega

/-- The coefficient does not end in a zero either. -/
theorem mod_ten (significant : Significant digits) : ofDigits digits % 10 ≠ 0 := by
  rcases List.eq_nil_or_concat' digits with rfl | ⟨init, c, rfl⟩
  · exact absurd rfl significant.nonempty
  · obtain ⟨value, below, rfl, value_eq⟩ := exists_digitChar (significant.all c (by simp))
    have last := significant.last
    rw [List.getLast?_concat] at last
    rw [ofDigits_concat, value_eq, Nat.mul_add_mod, Nat.mod_eq_of_lt below]
    rintro rfl
    exact last rfl

end Significant

theorem toDigits_head?_ne (positive : 0 < n) : (Nat.toDigits 10 n).head? ≠ some '0' := by
  intro zero
  obtain ⟨rest, split⟩ := List.head?_eq_some_iff.mp zero
  have all := digits_toDigits n
  have value := ofDigits_toDigits n
  have length (more : 0 < rest.length) (short : n < 10 ^ rest.length) :
      (Nat.toDigits 10 n).length ≤ rest.length :=
    (Nat.length_toDigits_le_iff (by decide) more).mpr short
  rw [split] at all value length
  rw [← List.singleton_append, ofDigits_append] at value
  have short := ofDigits_lt fun c member => all c (List.mem_cons_of_mem '0' member)
  have none : ofDigits ['0'] = 0 := rfl
  rw [none, Nat.mul_zero, Nat.zero_add] at value
  rw [value] at short
  rcases Nat.eq_zero_or_pos rest.length with empty | more
  · rw [empty] at short
    omega
  · have := length more short
    simp at this

theorem significant_toDigits (last : n % 10 ≠ 0) : Significant (Nat.toDigits 10 n) := by
  refine ⟨digits_toDigits n, Nat.toDigits_ne_nil, toDigits_head?_ne (by omega), ?_⟩
  intro zero
  obtain ⟨init, split⟩ := List.getLast?_eq_some_iff.mp zero
  have value := ofDigits_toDigits n
  rw [split, ofDigits_concat] at value
  omega

/-- Digits that are not all zeros have zeros, significant digits, and zeros. -/
theorem exists_trimmed (all : Digits digits) (positive : 0 < ofDigits digits) :
    Significant (trimBoth (· == '0') digits) ∧ ∃ behind, digits =
      List.replicate (digits.takeWhile (· == '0')).length '0' ++
        (trimBoth (· == '0') digits ++ List.replicate behind '0') := by
  obtain ⟨⟨before, after, split, ahead, behind⟩, first, last⟩ := trims_trimBoth (· == '0') digits
  generalize trimBoth (· == '0') digits = middle at *
  have zeros {zeros : List Char} (same : ∀ c ∈ zeros, (c == '0') = true) :
      zeros = List.replicate zeros.length '0' :=
    List.eq_replicate_of_mem fun c member => eq_of_beq (same c member)
  have some : middle ≠ [] := by
    rintro rfl
    rw [split, zeros ahead, List.nil_append, zeros behind, ofDigits_append,
      ofDigits_replicate_zero, ofDigits_replicate_zero] at positive
    exact positive.false
  have leading : digits.takeWhile (· == '0') = before := by
    rw [split, List.takeWhile_append_of_pos ahead, takeWhile_eq_of_head, List.append_nil]
    rwa [List.head?_append_of_ne_nil _ some]
  refine ⟨⟨?_, some, ?_, ?_⟩, after.length, ?_⟩
  · intro c member
    exact all c (by simp [split, member])
  · intro zero
    exact absurd (first '0' zero) (by decide)
  · intro zero
    exact absurd (last '0' zero) (by decide)
  · rw [leading, ← zeros ahead, ← zeros behind, split]

/-! ## The value -/

/-- Of the decimals with one value only one has a coefficient that does not end in a zero. -/
theorem Decimal.eq_of_value_eq {x y : Decimal} (first : x.coefficient % 10 ≠ 0)
    (second : y.coefficient % 10 ≠ 0) (same : x.value = y.value) : x = y := by
  wlog order : x.exponent ≤ y.exponent
  · exact (this second first same.symm (not_le.mp order).le).symm
  obtain ⟨count, places⟩ := Int.exists_add_of_le order
  have scaled : x.coefficient = y.coefficient * 10 ^ count := by
    rw [value, value, places, zpow_add₀ (by norm_num), zpow_natCast, ← mul_assoc, mul_right_comm] at same
    exact_mod_cast mul_right_cancel₀ (zpow_ne_zero _ (by norm_num)) same
  cases count with
  | zero =>
    rw [Nat.pow_zero, Nat.mul_one] at scaled
    rcases x with ⟨_, exponent⟩
    obtain rfl : _ = exponent := (places.trans (Int.add_zero exponent))
    exact congrArg (Decimal.mk · _) scaled
  | succ count => simp [scaled, Nat.pow_succ, ← Nat.mul_assoc] at first

/-- Zeros at either end of the digits only move the point. -/
theorem value_pointed {ahead behind : Nat} (split : whole ++ fraction =
    List.replicate ahead '0' ++ (digits ++ List.replicate behind '0')) :
    (⟨ofDigits (whole ++ fraction), exponent - fraction.length⟩ : Decimal).value =
      (pointed digits (whole.length + exponent - ahead)).value := by
  have counts := congrArg List.length split
  simp only [List.length_append, List.length_replicate] at counts
  have places : exponent - fraction.length =
      whole.length + exponent - ahead - digits.length - behind := by omega
  unfold pointed Decimal.value
  simp only
  rw [split, ofDigits_append, ofDigits_replicate_zero, Nat.mul_zero, Nat.zero_add, ofDigits_append,
    ofDigits_replicate_zero, Nat.add_zero, List.length_replicate, places,
    zpow_sub₀ (by norm_num), zpow_natCast]
  push_cast
  field_simp

namespace Significant

/-- The point tells between which powers of ten the number is. -/
theorem value_lt (significant : Significant digits) (point : Int) :
    (pointed digits point).value < (10 : ℚ) ^ point := by
  have below := Decimal.value_lt_power (x := pointed digits point) (ofDigits_lt significant.all)
  rwa [pointed, add_sub_cancel] at below

theorem le_value (significant : Significant digits) (point : Int) :
    (10 : ℚ) ^ (point - 1) ≤ (pointed digits point).value := by
  have some := List.length_pos_iff.mpr significant.nonempty
  have least : (10 ^ (digits.length - 1) : ℚ) ≤ ofDigits digits := by
    exact_mod_cast significant.pow_le_ofDigits
  have places : point - 1 = (digits.length - 1 : Nat) + (point - digits.length) := by omega
  rw [places, zpow_add₀ (by norm_num), zpow_natCast]
  exact mul_le_mul_of_nonneg_right least (zpow_nonneg (by norm_num) _)

/-- The point of a finite number that is not zero. -/
theorem point_bounds (significant : Significant digits) {index : Nat}
    (nearest : Nearest ((pointed digits point).value * one) index) (positive : 0 < index)
    (finite : index < finiteCount) : -330 < point ∧ point ≤ 310 := by
  constructor
  · by_contra! low
    have small := (significant.value_lt point).trans_le (zpow_le_zpow_right₀ (by norm_num) low)
    exact positive.ne' (nearest.eq_zero (Decimal.value_nonneg _) small)
  · by_contra! high
    have large : (10 : ℚ) ^ (310 : ℤ) ≤ (pointed digits point).value :=
      (zpow_le_zpow_right₀ (by norm_num) (by omega)).trans (significant.le_value point)
    exact finite.not_ge (nearest.finiteCount_le large)

/-- No other digits and place give the same number. -/
theorem unique (significant : Significant digits) (others : Significant other)
    (same : (pointed digits point).value = (pointed other place).value) :
    digits = other ∧ point = place := by
  have same := Decimal.eq_of_value_eq significant.mod_ten others.mod_ten same
  have coefficients : ofDigits digits = ofDigits other := congrArg Decimal.coefficient same
  have exponents : point - digits.length = place - other.length := congrArg Decimal.exponent same
  have digits_eq : digits = other := by
    rw [← toDigits_ofDigits significant.all significant.nonempty significant.first, coefficients,
      toDigits_ofDigits others.all others.nonempty others.first]
  refine ⟨digits_eq, ?_⟩
  rw [digits_eq] at exponents
  omega

end Significant

end Redex
