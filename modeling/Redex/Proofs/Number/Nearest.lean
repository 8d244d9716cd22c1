import Redex.Number.Binary64
import Mathlib.Algebra.Order.Field.Rat
import Mathlib.Algebra.Order.Ring.Abs
import Mathlib.Tactic.FieldSimp
import Mathlib.Tactic.LinearCombination
import Mathlib.Tactic.Linarith
import Mathlib.Tactic.Ring

/-! The magnitude nearest to a number. Magnitudes are counted on past the finite ones, so that every
number that is not negative has a nearest magnitude and overflow is an index like any other. Nearest
is said by distances; the middles between magnitudes say the same, order the magnitudes nearest to
numbers in order, and leave at most one. Rounding an exact quotient finds it. -/
namespace Redex.Binary64

variable {v w : ℚ} {i j : Nat}

theorem positive_one : 0 < one := by decide +kernel

theorem positive_one_cast : (0 : ℚ) < one := Nat.cast_pos.mpr positive_one

/-- The magnitudes of a binade above the subnormal ones. -/
theorem units_normal (exponent : Nat) {fraction : Nat} (below : fraction < binade) :
    units ((exponent + 1) * binade + fraction) = (binade + fraction) * 2 ^ exponent := by
  have place : ((exponent + 1) * binade + fraction) / binade = exponent + 1 := by
    rw [Nat.mul_comm, Nat.mul_add_div (by decide), Nat.div_eq_of_lt below, Nat.add_zero]
  have rest : ((exponent + 1) * binade + fraction) % binade = fraction := by
    rw [Nat.mul_comm, Nat.mul_add_mod, Nat.mod_eq_of_lt below]
  have normal : ¬(exponent + 1) * binade + fraction < binade := by
    rw [Nat.succ_mul]
    omega
  rw [units, if_neg normal, place, rest, Nat.add_sub_cancel, Nat.pow_eq]

/-- A significand of 53 bits, or the one that carries into the next binade. -/
theorem units_significand {shift significand : Nat} (low : shift = 0 ∨ binade ≤ significand)
    (high : significand ≤ 2 * binade) :
    units (shift * binade + significand) = significand * 2 ^ shift := by
  rcases Nat.lt_or_ge significand binade with small | normal
  · obtain rfl : shift = 0 := low.resolve_right (by omega)
    simp [units, small]
  · rcases Nat.lt_or_eq_of_le high with below | rfl
    · have place : shift * binade + significand =
          (shift + 1) * binade + (significand - binade) := by
        rw [Nat.succ_mul]
        omega
      rw [place, units_normal shift (by omega), Nat.add_sub_cancel' normal]
    · have place : shift * binade + 2 * binade = (shift + 1 + 1) * binade + 0 := by
        ring
      rw [place, units_normal (shift + 1) (by decide), Nat.pow_succ]
      ring

/-- The first magnitude past the finite ones is 2^1024. -/
theorem units_finiteCount : units finiteCount = 2 ^ 1024 * one := by
  refine (units_normal 2046 (show 0 < binade by decide)).trans ?_
  decide +kernel

/-- A magnitude has a significand, of 53 bits unless it is subnormal. -/
theorem exists_significand (index : Nat) : ∃ significand,
    index = (index / binade - 1) * binade + significand ∧
      (index / binade - 1 = 0 ∨ binade ≤ significand) ∧ significand < 2 * binade := by
  have parts := Nat.div_add_mod' index binade
  have below := Nat.mod_lt index (show 0 < binade by decide)
  cases whole : index / binade with
  | zero =>
    rw [whole, Nat.zero_mul, Nat.zero_add] at parts
    exact ⟨index, by simp, .inl rfl, by omega⟩
  | succ shift =>
    rw [whole, Nat.succ_mul] at parts
    exact ⟨binade + index % binade, by rw [Nat.add_sub_cancel]; omega,
      .inr (Nat.le_add_right _ _), by omega⟩

/-- The gap above a magnitude, a single unit at first, doubles from binade to binade. -/
theorem units_succ (index : Nat) :
    units (index + 1) = units index + 2 ^ (index / binade - 1) := by
  obtain ⟨significand, split, low, high⟩ := exists_significand index
  generalize index / binade - 1 = shift at split low
  rw [split, Nat.add_assoc, units_significand (by omega) (by omega),
    units_significand low (Nat.le_of_lt high), Nat.succ_mul]

theorem units_strictMono : StrictMono units := by
  refine strictMono_nat_of_lt_succ fun index => ?_
  rw [units_succ]
  exact Nat.lt_add_of_pos_right (Nat.two_pow_pos _)

@[simp] theorem units_zero : units 0 = 0 := rfl

theorem units_inj : units i = units j ↔ i = j := units_strictMono.injective.eq_iff

/-! ## The nearest magnitude -/

/-- Of all magnitudes this one is nearest to `v` units. Of two equally near ones it is that with
the even index. -/
structure Nearest (v : ℚ) (index : Nat) : Prop where
  closest : ∀ other, |v - units index| ≤ |v - units other|
  even : ∀ other, other ≠ index → |v - units other| = |v - units index| → index % 2 = 0

theorem abs_sub_le_iff_of_lt {a b : ℚ} (order : a < b) : |v - a| ≤ |v - b| ↔ 2 * v ≤ a + b := by
  rw [← sq_le_sq]
  constructor <;> intro h <;> nlinarith

theorem abs_sub_le_iff_of_gt {a b : ℚ} (order : b < a) : |v - a| ≤ |v - b| ↔ a + b ≤ 2 * v := by
  rw [← sq_le_sq]
  constructor <;> intro h <;> nlinarith

theorem abs_sub_eq_iff {a b : ℚ} (apart : a ≠ b) : |v - b| = |v - a| ↔ 2 * v = a + b := by
  rw [← sq_eq_sq_iff_abs_eq_abs]
  constructor
  · intro tie
    have : (a - b) * (2 * v - (a + b)) = 0 := by linear_combination tie
    have := (mul_eq_zero.mp this).resolve_left (sub_ne_zero.mpr apart)
    linarith
  · intro middle
    linear_combination (a - b) * middle

namespace Nearest

theorem of_between (below : ∀ j < i, (units i + units j : ℚ) ≤ 2 * v)
    (above : ∀ j, i < j → 2 * v ≤ units i + units j)
    (even : ∀ j ≠ i, 2 * v = units i + units j → i % 2 = 0) : Nearest v i := by
  constructor
  · intro j
    rcases lt_trichotomy i j with order | rfl | order
    · exact (abs_sub_le_iff_of_lt (by exact_mod_cast units_strictMono order)).mpr (above j order)
    · exact le_rfl
    · exact (abs_sub_le_iff_of_gt (by exact_mod_cast units_strictMono order)).mpr (below j order)
  · intro j other tie
    have apart : (units i : ℚ) ≠ units j := by exact_mod_cast units_inj.not.mpr other.symm
    exact even j other ((abs_sub_eq_iff apart).mp tie)

theorem le_middle (nearest : Nearest v i) (above : i < j) : 2 * v ≤ units i + units j :=
  (abs_sub_le_iff_of_lt (by exact_mod_cast units_strictMono above)).mp (nearest.closest j)

theorem middle_le (nearest : Nearest v i) (below : j < i) : (units i + units j : ℚ) ≤ 2 * v :=
  (abs_sub_le_iff_of_gt (by exact_mod_cast units_strictMono below)).mp (nearest.closest j)

theorem even_of_middle (nearest : Nearest v i) (other : j ≠ i) (middle : 2 * v = units i + units j) :
    i % 2 = 0 := by
  have apart : (units i : ℚ) ≠ units j := by exact_mod_cast units_inj.not.mpr other.symm
  exact nearest.even j other ((abs_sub_eq_iff apart).mpr middle)

/-- Of two numbers in order the magnitudes nearest to them are in order. -/
theorem mono (first : Nearest v i) (second : Nearest w j) (order : v ≤ w) : i ≤ j := by
  by_contra! crossed
  -- Both numbers are in the middle of the two magnitudes, which would have to be neighbours with even indices.
  have low := first.middle_le crossed
  have high := second.le_middle crossed
  have firstEven := first.even_of_middle crossed.ne (by linarith)
  have secondEven := second.even_of_middle crossed.ne' (by linarith)
  have between : (units (j + 1) : ℚ) < units i := by exact_mod_cast units_strictMono (by omega)
  have := first.middle_le (show j + 1 < i by omega)
  have next : (units j : ℚ) < units (j + 1) := by exact_mod_cast units_strictMono (Nat.lt_succ_self j)
  linarith

theorem unique (first : Nearest v i) (second : Nearest v j) : i = j :=
  le_antisymm (first.mono second le_rfl) (second.mono first le_rfl)

/-- A number between neighbours, not past the middle. -/
theorem of_floor (low : units i ≤ v) (high : 2 * v ≤ units i + units (i + 1))
    (even : 2 * v = units i + units (i + 1) → i % 2 = 0) : Nearest v i := by
  have next {j : Nat} (above : i < j) : (units (i + 1) : ℚ) ≤ units j := by
    exact_mod_cast units_strictMono.monotone above
  apply of_between
  · intro j below
    have : (units j : ℚ) < units i := by exact_mod_cast units_strictMono below
    linarith
  · intro j above
    linarith [next above]
  · intro j other middle
    rcases Nat.lt_or_gt_of_ne other with below | above
    · have : (units j : ℚ) < units i := by exact_mod_cast units_strictMono below
      linarith
    · exact even (by linarith [next above])

/-- A number between neighbours, not short of the middle. -/
theorem of_ceil (high : v ≤ units (i + 1)) (low : units i + units (i + 1) ≤ 2 * v)
    (even : 2 * v = units i + units (i + 1) → (i + 1) % 2 = 0) : Nearest v (i + 1) := by
  have last {j : Nat} (below : j < i + 1) : (units j : ℚ) ≤ units i := by
    exact_mod_cast units_strictMono.monotone (Nat.le_of_lt_succ below)
  apply of_between
  · intro j below
    linarith [last below]
  · intro j above
    have : (units (i + 1) : ℚ) < units j := by exact_mod_cast units_strictMono above
    linarith
  · intro j other middle
    rcases Nat.lt_or_gt_of_ne other with below | above
    · exact even (by linarith [last below])
    · have : (units (i + 1) : ℚ) < units j := by exact_mod_cast units_strictMono above
      linarith

/-- A number less than half a unit from a magnitude. -/
theorem of_close (close : 2 * |v - units i| < 1) : Nearest v i := by
  have gap {j k : Nat} (order : j < k) : (units j + 1 : ℚ) ≤ units k := by
    exact_mod_cast units_strictMono order
  rw [← abs_two, ← abs_mul, abs_lt] at close
  apply of_between
  · intro j below
    linarith [gap below]
  · intro j above
    linarith [gap above]
  · intro j other middle
    rcases Nat.lt_or_gt_of_ne other with below | above
    · linarith [gap below]
    · linarith [gap above]

end Nearest

theorem nearest_units (index : Nat) : Nearest (units index) index :=
  .of_close (by simp)

/-- The significand that the quotient is cut to. -/
theorem significand_bounds (n d : Nat) :
    let shift := Nat.log2 (n / d) - 52
    let significand := n / (d * 2 ^ shift)
    (shift = 0 ∨ binade ≤ significand) ∧ significand < 2 * binade := by
  intro shift significand
  have cut : significand = n / d / 2 ^ shift := (Nat.div_div_eq_div_mul ..).symm
  have below := Nat.lt_log2_self (n := n / d)
  rcases Nat.lt_or_ge 52 (Nat.log2 (n / d)) with large | small
  · have exponent : Nat.log2 (n / d) = 52 + shift := by omega
    have above := Nat.log2_self_le (n := n / d) (by rintro zero; simp [zero] at large)
    rw [exponent, Nat.pow_add] at above
    rw [exponent, Nat.add_right_comm, Nat.pow_add] at below
    rw [cut, Nat.le_div_iff_mul_le (Nat.two_pow_pos _), Nat.div_lt_iff_lt_mul (Nat.two_pow_pos _)]
    exact ⟨.inr above, below⟩
  · have whole : shift = 0 := by omega
    rw [cut, whole, Nat.pow_zero, Nat.div_one]
    refine ⟨.inl rfl, below.trans_le ?_⟩
    exact Nat.pow_le_pow_right (by decide) (show _ ≤ 53 by omega)

/-- What is left of a number above a magnitude, and the gap up to the next one, over a common
denominator: it is their doubled numerators that decide. -/
theorem nearest_of_rest {rest gap d significand : Nat} (positive : 0 < d)
    (value : v = units i + rest / d) (next : (units (i + 1) : ℚ) = units i + gap / d)
    (below : rest < gap) (parity : i % 2 = significand % 2) :
    Nearest v (if gap < 2 * rest ∨ 2 * rest = gap ∧ significand % 2 = 1 then i + 1 else i) := by
  have scaled (a b : Nat) : (a : ℚ) / d ≤ b / d ↔ a ≤ b := by
    rw [div_le_div_iff_of_pos_right (by exact_mod_cast positive), Nat.cast_le]
  have within := (scaled rest gap).mpr below.le
  have upper := scaled gap (2 * rest)
  have lower := scaled (2 * rest) gap
  rw [Nat.cast_mul, mul_div_assoc, Nat.cast_two] at upper lower
  split
  next up =>
    have beyond := upper.mpr (by omega)
    apply Nearest.of_ceil
    · linarith
    · linarith
    · intro middle
      have tie := lower.mp (by linarith)
      omega
  next down =>
    have short := lower.mpr (by omega)
    apply Nearest.of_floor
    · linarith [div_nonneg (Nat.cast_nonneg (α := ℚ) rest) (Nat.cast_nonneg (α := ℚ) d)]
    · linarith
    · intro middle
      have tie := upper.mp (by linarith)
      omega

/-- Rounding a quotient finds the magnitude nearest to it. -/
theorem nearest_div (n : Nat) {d : Nat} (positive : 0 < d) : Nearest (n / d) (nearest n d) := by
  obtain ⟨low, high⟩ := significand_bounds n d
  unfold nearest roundHalfEven
  simp only [Nat.pow_eq]
  generalize Nat.log2 (n / d) - 52 = shift at low high ⊢
  have floor := units_significand low high.le
  have ceil := units_significand (low.imp_right (Nat.le_add_right_of_le (k := 1))) high
  have below := Nat.mod_lt n (Nat.mul_pos positive (Nat.two_pow_pos shift))
  have parts := Nat.div_add_mod n (d * 2 ^ shift)
  generalize n / (d * 2 ^ shift) = significand at *
  generalize n % (d * 2 ^ shift) = rest at *
  have positive' : (0 : ℚ) < d := by exact_mod_cast positive
  rw [add_ite, ← Nat.add_assoc]
  apply nearest_of_rest positive _ _ below
  · rw [show shift * binade = 2 * (shift * 0x8000000000000) by ring, Nat.mul_add_mod]
  · rw [floor, ← parts]
    push_cast
    field_simp
  · rw [Nat.add_assoc, ceil, floor]
    push_cast
    field_simp

theorem nearest_one (n : Nat) : Nearest n (nearest n 1) := by
  simpa using nearest_div n Nat.one_pos

/-! ## Rounding -/

/-- A number that is not negative and the one it is rounded to, infinity past the finite ones. -/
inductive Rounds (v : ℚ) : Binary64 → Prop
  | finite {index : Fin finiteCount} (nearest : Nearest (v * one) index) :
      Rounds v (.finite false index)
  | infinite {index : Nat} (past : finiteCount ≤ index) (nearest : Nearest (v * one) index) :
      Rounds v (.infinite false)

theorem rounds_iff {x : Binary64} (nearest : Nearest (v * one) i) :
    Rounds v x ↔ x = ofIndex false i := by
  unfold ofIndex
  constructor
  · rintro (@⟨index, other⟩ | ⟨past, other⟩) <;> obtain rfl := nearest.unique other
    · rw [dif_pos index.isLt]
    · rw [dif_neg past.not_gt]
  · rintro rfl
    split
    · exact .finite nearest
    next past => exact .infinite (not_lt.mp past) nearest

end Redex.Binary64
