import Redex.Number.Shortest
import Redex.Proofs.Number.Significant

/-! The search for the shortest decimal. On each grid only the two neighbours of the value are tried.
A neighbour that ends in a zero is a neighbour on the coarser grid before, where it was refused, so
that what is found never ends in a zero; and the last grid is so fine that the nearer neighbour reads
back. -/
namespace Redex.Binary64

variable {index coefficient : Nat} {exponent : Int}

/-- The last point of a grid that is not past the magnitude. -/
def gridFloor (index : Nat) (exponent : Int) : Nat :=
  (gridRatio index exponent).1 / (gridRatio index exponent).2

/-- One of the two points of a grid around the magnitude. -/
def Neighbour (index : Nat) (exponent : Int) (coefficient : Nat) : Prop :=
  coefficient = gridFloor index exponent ∨ coefficient = gridFloor index exponent + 1

theorem gridFloor_eq (index : Nat) (exponent : Int) : gridFloor index exponent =
    units index * 10 ^ (-exponent).toNat / (one * 10 ^ exponent.toNat) := rfl

/-- The magnitude on a grid ten times as fine. -/
theorem gridFloor_finer (index : Nat) (exponent : Int) :
    gridFloor index (exponent - 1) / 10 = gridFloor index exponent := by
  rw [gridFloor_eq, gridFloor_eq, Nat.div_div_eq_div_mul]
  rcases lt_or_ge 0 exponent with coarse | fine
  · have none : (-(exponent - 1)).toNat = (-exponent).toNat := by omega
    have more : exponent.toNat = (exponent - 1).toNat + 1 := by omega
    rw [none, more, Nat.pow_succ (n := 10), ← Nat.mul_assoc one]
  · have none : (exponent - 1).toNat = exponent.toNat := by omega
    have more : (-(exponent - 1)).toNat = (-exponent).toNat + 1 := by omega
    rw [none, more, Nat.pow_succ (n := 10), ← Nat.mul_assoc (units index),
      Nat.mul_div_mul_right _ _ (by decide)]

/-- The coefficient that is chosen is a neighbour that is accepted. -/
theorem neighbour?_spec {accepts : Nat → Bool} {n d found : Nat}
    (chosen : neighbour? accepts n d = some found) :
    (found = n / d ∨ found = n / d + 1) ∧ accepts found = true := by
  unfold neighbour? at chosen
  split at chosen
  next low high =>
    obtain rfl := Option.some.inj chosen
    unfold roundHalfEven
    split
    · exact ⟨.inr rfl, high⟩
    · exact ⟨.inl rfl, low⟩
  next low _ => exact Option.some.inj chosen ▸ ⟨.inl rfl, low⟩
  next _ high => exact Option.some.inj chosen ▸ ⟨.inr rfl, high⟩
  next => cases chosen

theorem neighbour?_eq_none {accepts : Nat → Bool} {n d other : Nat}
    (none : neighbour? accepts n d = none) (neighbour : other = n / d ∨ other = n / d + 1) :
    accepts other = false := by
  unfold neighbour? at none
  split at none
  · cases none
  · cases none
  · cases none
  next low high => rcases neighbour with rfl | rfl <;> assumption

theorem onGrid?_eq (index : Nat) (exponent : Int) : onGrid? index exponent =
    neighbour? (fun coefficient => Decimal.nearest ⟨coefficient, exponent⟩ == index)
      (gridRatio index exponent).1 (gridRatio index exponent).2 := rfl

/-- What is found on a grid is a neighbour that reads back. -/
theorem onGrid?_spec (found : onGrid? index exponent = some coefficient) :
    Neighbour index exponent coefficient ∧ Decimal.nearest ⟨coefficient, exponent⟩ = index := by
  rw [onGrid?_eq] at found
  obtain ⟨neighbour, accepted⟩ := neighbour?_spec found
  exact ⟨neighbour, eq_of_beq accepted⟩

theorem onGrid?_eq_none (missed : onGrid? index exponent = none)
    (neighbour : Neighbour index exponent coefficient) :
    Decimal.nearest ⟨coefficient, exponent⟩ ≠ index := by
  rw [onGrid?_eq] at missed
  unfold Neighbour gridFloor at neighbour
  have refused := neighbour?_eq_none missed neighbour
  exact ne_of_beq_false refused

/-! ## What is not found -/

/-- No neighbour on the grid that ends in a zero reads back. -/
def Untaken (index : Nat) (exponent : Int) : Prop :=
  ∀ coefficient, Neighbour index exponent coefficient → coefficient % 10 = 0 →
    Decimal.nearest ⟨coefficient, exponent⟩ ≠ index

/-- A point of a grid that ends in a zero is a point of the coarser one. -/
theorem nearest_coarser (zero : coefficient % 10 = 0) :
    Decimal.nearest ⟨coefficient / 10, exponent⟩ = Decimal.nearest ⟨coefficient, exponent - 1⟩ := by
  have value : Decimal.value ⟨coefficient / 10, exponent⟩ =
      Decimal.value ⟨coefficient, exponent - 1⟩ := by
    have tenfold : (coefficient : ℚ) = 10 * (coefficient / 10 : Nat) := by
      exact_mod_cast (Nat.mul_div_cancel' (Nat.dvd_of_mod_eq_zero zero)).symm
    unfold Decimal.value
    simp only
    rw [tenfold, zpow_sub_one₀ (by norm_num)]
    ring
  rw [Decimal.nearest_eq_iff, value]
  exact Decimal.nearest_value _

theorem untaken_of_missed (missed : onGrid? index exponent = none) :
    Untaken index (exponent - 1) := by
  intro coefficient neighbour zero
  rw [← nearest_coarser zero]
  refine onGrid?_eq_none missed ?_
  have floor := gridFloor_finer index exponent
  unfold Neighbour at neighbour ⊢
  omega

/-- The search starts where nothing but one is on the grid beyond zero. -/
theorem untaken_of_small (positive : 0 < index) (small : gridFloor index exponent = 0) :
    Untaken index exponent := by
  intro coefficient neighbour zero
  obtain rfl : coefficient = 0 := by
    unfold Neighbour at neighbour
    omega
  rw [Decimal.nearest_of_coefficient_zero rfl]
  exact positive.ne

/-! ## The search -/

theorem neighbour_roundToGrid (index : Nat) (exponent : Int) :
    Neighbour index exponent (roundToGrid index exponent) := by
  have low := div_le_roundHalfEven (gridRatio index exponent).1 (gridRatio index exponent).2
  have high := roundHalfEven_le (gridRatio index exponent).1 (gridRatio index exponent).2
  unfold Neighbour roundToGrid gridFloor
  generalize gridRatio index exponent = ratio at *
  rcases ratio with ⟨n, d⟩
  simp only at *
  omega

/-- Rounding is off by half of the denominator at most. -/
theorem roundHalfEven_close (n : Nat) {d : Nat} (positive : 0 < d) :
    2 * |(roundHalfEven n d * d : ℚ) - n| ≤ d := by
  have parts : ((d * (n / d) + n % d : Nat) : ℚ) = n := congrArg _ (Nat.div_add_mod n d)
  push_cast at parts
  rw [← abs_two, ← abs_mul, abs_le]
  unfold roundHalfEven
  split
  next up =>
    have beyond : (d : ℚ) ≤ 2 * (n % d : Nat) := by exact_mod_cast (by omega : d ≤ 2 * (n % d))
    have below : ((n % d : Nat) : ℚ) ≤ d := Nat.cast_le.mpr (Nat.mod_lt n positive).le
    push_cast
    constructor <;> linarith
  next down =>
    have short : (2 * (n % d : Nat) : ℚ) ≤ d := by exact_mod_cast (by omega : 2 * (n % d) ≤ d)
    constructor <;> linarith

/-- On the last grid half a step is less than half a unit. -/
theorem nearest_roundToGrid (index : Nat) :
    Decimal.nearest ⟨roundToGrid index (-324), -324⟩ = index := by
  obtain ⟨count, places, enough⟩ : ∃ count : Nat, (-324 : Int) = -count ∧ one < 10 ^ count :=
    ⟨324, rfl, by decide +kernel⟩
  rw [places, Decimal.nearest_eq_iff]
  apply Nearest.of_close
  have close := roundHalfEven_close (units index * 10 ^ count) positive_one
  have found : roundToGrid index (-count) = roundHalfEven (units index * 10 ^ count) one := by
    unfold roundToGrid gridRatio
    dsimp only
    rw [Int.neg_neg, Int.toNat_natCast, Int.toNat_neg_natCast, Nat.pow_eq, Nat.pow_eq, Nat.pow_zero,
      Nat.mul_one]
  have power : (0 : ℚ) < 10 ^ count := pow_pos (by norm_num) _
  have enough : (one : ℚ) < 10 ^ count := by exact_mod_cast enough
  rw [← mul_lt_mul_iff_of_pos_right power, one_mul]
  refine lt_of_le_of_lt (le_of_eq_of_le ?_ close) enough
  rw [found, mul_assoc, Decimal.value]
  generalize roundHalfEven (units index * 10 ^ count) one = nearer
  have scale (a : ℚ) : |a| * 10 ^ count = |a * 10 ^ count| := by rw [abs_mul, abs_of_pos power]
  have difference (unit : ℚ) : (nearer * 10 ^ (-count : Int) * unit - units index) * 10 ^ count =
      nearer * unit - (units index * 10 ^ count : Nat) := by
    rw [zpow_neg, zpow_natCast, Nat.cast_mul, Nat.cast_pow, Nat.cast_ofNat]
    field_simp
  rw [scale, difference]

/-- From a grid on where nothing ends in a zero, down to the last. -/
theorem firstGrid_spec {finer : Nat} (untaken : Untaken index exponent)
    (last : exponent - finer = -324) :
    let found := firstGrid (onGrid? index) (roundToGrid index) finer exponent
    found.nearest = index ∧ found.coefficient % 10 ≠ 0 ∧ -324 ≤ found.exponent := by
  induction finer generalizing exponent with
  | zero =>
    obtain rfl : exponent = -324 := by omega
    have reads := nearest_roundToGrid index
    have last := untaken _ (neighbour_roundToGrid index (-324))
    rw [firstGrid]
    dsimp only
    exact ⟨reads, fun zero => last zero reads, le_rfl⟩
  | succ finer ih =>
    rw [firstGrid]
    cases found : onGrid? index exponent with
    | some coefficient =>
      obtain ⟨neighbour, reads⟩ := onGrid?_spec found
      exact ⟨reads, fun zero => untaken _ neighbour zero reads, by dsimp only; omega⟩
    | none => exact ih (untaken_of_missed found) (by omega)

/-- The shortest decimal reads back and its coefficient does not end in a zero. -/
theorem shortest_spec (positive : 0 < index) : (shortest index).nearest = index ∧
    (shortest index).coefficient % 10 ≠ 0 ∧ -324 ≤ (shortest index).exponent := by
  unfold shortest
  refine firstGrid_spec (untaken_of_small positive ?_) (by omega)
  rw [gridFloor_eq, Int.toNat_natCast, Int.toNat_neg_natCast, Nat.pow_zero, Nat.mul_one,
    ← Nat.div_div_eq_div_mul]
  apply Nat.div_eq_of_lt
  split
  next none => rw [none]; decide
  next => exact (Nat.length_toDigits_le_iff (by decide) Nat.length_toDigits_pos).mp le_rfl

end Redex.Binary64
