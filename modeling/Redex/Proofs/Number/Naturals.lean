import Redex.Proofs.Number.Scaling

/-! Naturals among the numbers. Below 2^53 all of them are magnitudes, and adding or multiplying by
one of these rounds once. From 2^53 on magnitudes are two or more apart, so that what is added to a
natural after doubling it often enough shows in the rounding only if the natural is in the middle of
two magnitudes and was rounded down. -/
namespace Redex.Binary64

variable {i j n radix digit : Nat}

/-- The index of the magnitude nearest to a natural. -/
def indexOf (n : Nat) : Nat := nearest (n * one) 1

theorem ofNat_eq (n : Nat) : ofNat n = ofIndex false (indexOf n) := rfl

theorem nearest_indexOf (n : Nat) : Nearest (n * one) (indexOf n) := by
  have found := nearest_div (n * one) Nat.one_pos
  rwa [Nat.cast_mul, Nat.cast_one, div_one] at found

theorem binade_le_natural (positive : 0 < n) : (binade : ℚ) ≤ n * one := by
  exact_mod_cast (by decide +kernel : binade ≤ one).trans (Nat.le_mul_of_pos_left one positive)

theorem indexOf_mul_two_pow (positive : 0 < n) (count : Nat) :
    indexOf (n * 2 ^ count) = indexOf n + count * binade := by
  have scaled := (nearest_indexOf n).scale (binade_le_natural positive) count
  have direct := nearest_indexOf (n * 2 ^ count)
  push_cast at direct
  rw [mul_right_comm] at direct
  exact direct.unique scaled

/-- From 2^53 on not every natural is a magnitude. -/
theorem units_precision : units (1076 * binade) = 2 ^ 53 * one := by
  refine (units_normal 1075 (show 0 < binade by decide)).trans ?_
  decide +kernel

/-- Below 2^53 every natural is a magnitude. -/
theorem units_indexOf (small : n < 2 ^ 53) : units (indexOf n) = n * one := by
  obtain ⟨index, exact⟩ : ∃ index, units index = n * one := by
    rcases Nat.eq_zero_or_pos n with rfl | positive
    · exact ⟨0, (Nat.zero_mul one).symm⟩
    · have bit : n.log2 ≤ 52 := Nat.le_of_lt_succ ((Nat.log2_lt positive.ne').mpr small)
      have low : binade ≤ n * 2 ^ (52 - n.log2) := by
        calc binade = 2 ^ n.log2 * 2 ^ (52 - n.log2) := by rw [← Nat.pow_add, Nat.add_sub_cancel' bit]
          _ ≤ n * 2 ^ (52 - n.log2) := Nat.mul_le_mul_right _ (Nat.log2_self_le positive.ne')
      have high : n * 2 ^ (52 - n.log2) ≤ 2 * binade := by
        calc n * 2 ^ (52 - n.log2) ≤ 2 ^ (n.log2 + 1) * 2 ^ (52 - n.log2) :=
              Nat.mul_le_mul_right _ Nat.lt_log2_self.le
          _ = 2 * binade := by
              rw [← Nat.pow_add, show n.log2 + 1 + (52 - n.log2) = 53 by omega]
              rfl
      have power : 2 ^ (52 - n.log2) * 2 ^ (1022 + n.log2) = one := by
        rw [Nat.add_comm, Nat.pow_add, ← Nat.mul_assoc, ← Nat.pow_add, Nat.sub_add_cancel bit]
        decide +kernel
      exact ⟨_, by rw [units_significand (.inr low) high, Nat.mul_assoc, power]⟩
  have found := nearest_units index
  rw [exact, Nat.cast_mul] at found
  rw [(nearest_indexOf n).unique found, exact]

/-! ## Arithmetic -/

/-- Small naturals are numbers. -/
theorem exists_ofNat (small : n < 2 ^ 53) :
    ∃ index : Fin finiteCount, ofNat n = .finite false index ∧ units index = n * one := by
  have exact := units_indexOf small
  have early : indexOf n < 1076 * binade := by
    rwa [← units_strictMono.lt_iff_lt, exact, units_precision, Nat.mul_lt_mul_right positive_one]
  have finite : indexOf n < finiteCount := early.trans (by decide)
  exact ⟨⟨indexOf n, finite⟩, by rw [ofNat_eq, ofIndex, dif_pos finite], exact⟩

theorem ofNat_zero : ofNat 0 = zero := by
  obtain ⟨index, found, value⟩ := exists_ofNat (Nat.two_pow_pos 53)
  rw [Nat.zero_mul, ← units_zero, units_inj] at value
  rw [found, Fin.ext (b := ⟨0, by decide⟩) value]

/-- A product that is a magnitude is not rounded. -/
theorem mul_ofNat (positive : 0 < radix) (small : radix < 2 ^ 53)
    (exact : units j = units i * radix) : (ofIndex false i).mul (ofNat radix) = ofIndex false j := by
  obtain ⟨index, found, value⟩ := exists_ofNat small
  have some : index.val ≠ 0 := by
    intro zero
    rw [zero, units_zero] at value
    exact (Nat.mul_pos positive positive_one).ne value
  rw [found]
  by_cases finite : i < finiteCount
  · have product := nearest_div (units i * units index) positive_one
    rw [value, ← Nat.mul_assoc, ← exact, Nat.cast_mul,
      mul_div_cancel_right₀ _ positive_one_cast.ne'] at product
    rw [ofIndex, dif_pos finite, mul, value, ← Nat.mul_assoc, ← exact,
      product.unique (nearest_units j)]
    rfl
  · have past : finiteCount ≤ j := by
      refine (not_lt.mp finite).trans (units_strictMono.le_iff_le.mp ?_)
      exact exact ▸ Nat.le_mul_of_pos_right _ positive
    rw [ofIndex, dif_neg finite, ofIndex, dif_neg past.not_gt, mul, if_neg some]
    rfl

theorem add_ofNat (small : digit < 2 ^ 53) :
    (ofIndex false i).add (ofNat digit) = ofIndex false (nearest (units i + digit * one) 1) := by
  obtain ⟨index, found, value⟩ := exists_ofNat small
  rw [found]
  by_cases finite : i < finiteCount
  · have sum : signedUnits false i + signedUnits false index = (units i + digit * one : Nat) := by
      rw [← value]
      rfl
    rw [ofIndex, dif_pos finite, add, sum, Int.natAbs_natCast]
    generalize units i + digit * one = total
    rcases Nat.eq_zero_or_pos total with rfl | positive
    · rfl
    · have some : (total : Int) ≠ 0 := by omega
      have ahead : ¬(total : Int) < 0 := by omega
      rw [if_neg some, decide_eq_false ahead]
  · have past : finiteCount ≤ nearest (units i + digit * one) 1 := by
      refine (not_lt.mp finite).trans ((nearest_units i).mono (nearest_one _) ?_)
      exact_mod_cast Nat.le_add_right _ _
    rw [ofIndex, dif_neg finite, ofIndex, dif_neg past.not_gt]
    rfl

/-! ## From 2^53 on -/

/-- Naturals from 2^53 on. -/
theorem precision_le_indexOf (large : 2 ^ 53 ≤ n) : 1076 * binade ≤ indexOf n := by
  refine (nearest_units _).mono (nearest_indexOf n) ?_
  rw [units_precision]
  exact_mod_cast Nat.mul_le_mul_right one large

theorem two_mul_one : 2 * one = 2 ^ 1075 := by decide +kernel

/-- From 2^53 on magnitudes are even naturals. -/
theorem two_mul_one_dvd_units (large : 1076 * binade ≤ i) : 2 * one ∣ units i := by
  have exponent : 1075 ≤ i / binade - 1 :=
    Nat.le_sub_one_of_lt ((Nat.le_div_iff_mul_le (by decide)).mpr large)
  obtain ⟨significand, split, low, high⟩ := exists_significand i
  generalize i / binade - 1 = shift at *
  rw [split, units_significand low high.le, two_mul_one]
  exact (pow_dvd_pow 2 exponent).mul_left significand

/-- The gap above a natural from 2^53 on. -/
theorem add_two_mul_one_le (large : 1076 * binade ≤ i) : units i + 2 * one ≤ units (i + 1) := by
  obtain ⟨count, value⟩ := two_mul_one_dvd_units large
  obtain ⟨more, next⟩ := two_mul_one_dvd_units (Nat.le_succ_of_le large)
  have order := units_strictMono (Nat.lt_succ_self i)
  rw [value, next, Nat.mul_lt_mul_left (Nat.mul_pos Nat.two_pos positive_one)] at order
  rw [value, next, ← Nat.mul_succ]
  exact Nat.mul_le_mul_left _ order

/-- In the middle between two magnitudes, of which the lower is the even one. -/
def TiesDown (n : Nat) : Prop :=
  ∃ index, index % 2 = 0 ∧ 2 * (n * one) = units index + units (index + 1)

theorem Nearest.lt_middle (found : Nearest n i)
    (apart : i % 2 = 0 → 2 * n ≠ units i + units (i + 1)) : 2 * n < units i + units (i + 1) := by
  have upTo := found.le_middle (Nat.lt_succ_self i)
  refine lt_of_le_of_ne (by exact_mod_cast upTo) fun tie => apart ?_ tie
  exact found.even_of_middle (Nat.succ_ne_self i) (by exact_mod_cast tie)

/-- A natural from 2^53 on that does not tie down is short of the middle by one at least, since both
are multiples of one. -/
theorem succ_mul_one_le_middle (large : 2 ^ 53 ≤ n) (apart : ¬TiesDown n) :
    2 * ((n + 1) * one) ≤ units (indexOf n) + units (indexOf n + 1) := by
  have late := precision_le_indexOf large
  have middle := (nearest_one (n * one)).lt_middle fun even tie => apart ⟨_, even, tie⟩
  obtain ⟨count, sum⟩ := Nat.dvd_add (two_mul_one_dvd_units late)
    (two_mul_one_dvd_units (Nat.le_succ_of_le late))
  rw [← indexOf, sum, Nat.mul_assoc, Nat.mul_comm one, Nat.mul_lt_mul_left Nat.two_pos,
    Nat.mul_lt_mul_right positive_one] at middle
  rw [sum, Nat.mul_assoc, Nat.mul_comm one]
  exact Nat.mul_le_mul_left 2 (Nat.mul_le_mul_right one middle)

/-- Half of a scaled gap. -/
theorem twice_lt_of_gap {low high half added scale : Nat} (gap : low + 2 * half ≤ high)
    (part : added < scale * half) : 2 * (low * scale + added) < low * scale + high * scale := by
  have scaled := Nat.mul_le_mul_right scale gap
  linarith

/-- What is added after scaling the magnitude that a natural was rounded to is rounded away. -/
theorem nearest_scaled_add {rest places : Nat} (large : 2 ^ 53 ≤ n) (below : rest < 2 ^ places) :
    nearest (units (indexOf n) * 2 ^ places + rest * one) 1 = indexOf (n * 2 ^ places) := by
  have positive : 0 < n := (Nat.two_pow_pos 53).trans_le large
  have normal : binade ≤ indexOf n := (nearest_indexOf n).normal (binade_le_natural positive)
  have gap := add_two_mul_one_le (precision_le_indexOf large)
  rw [indexOf_mul_two_pow positive]
  refine (nearest_one _).unique ((nearest_units _).raise ?_ ?_)
  · rw [units_add_binades normal]
    exact Nat.cast_le.mpr (Nat.le_add_right _ _)
  · rw [Nat.add_right_comm, units_add_binades normal,
      units_add_binades (Nat.le_succ_of_le normal), ← Nat.cast_add]
    have part : rest * one < 2 ^ places * one := (Nat.mul_lt_mul_right positive_one).mpr below
    exact_mod_cast twice_lt_of_gap gap part

/-- What is added to a natural after scaling it is less than half of a gap, so that it shows only
if the natural is in the middle of two magnitudes. -/
theorem indexOf_mul_add {rest places : Nat} (large : 2 ^ 53 ≤ n) (below : rest < 2 ^ places)
    (apart : ¬TiesDown n) : indexOf (n * 2 ^ places + rest) = indexOf (n * 2 ^ places) := by
  have positive : 0 < n := (Nat.two_pow_pos 53).trans_le large
  have normal : binade ≤ indexOf n := (nearest_indexOf n).normal (binade_le_natural positive)
  have room := succ_mul_one_le_middle large apart
  refine (nearest_one _).unique ((nearest_one (n * 2 ^ places * one)).raise ?_ ?_)
  · exact Nat.cast_le.mpr (Nat.mul_le_mul_right one (Nat.le_add_right _ _))
  · rw [← indexOf, indexOf_mul_two_pow positive, Nat.add_right_comm, units_add_binades normal,
      units_add_binades (Nat.le_succ_of_le normal), ← Nat.cast_add, ← Nat.add_mul]
    have step : 2 * ((n * 2 ^ places + rest) * one) < 2 * ((n + 1) * one) * 2 ^ places := by
      calc 2 * ((n * 2 ^ places + rest) * one)
          < 2 * ((n * 2 ^ places + 2 ^ places) * one) := by
            rw [Nat.mul_lt_mul_left Nat.two_pos, Nat.mul_lt_mul_right positive_one]
            exact Nat.add_lt_add_left below _
        _ = 2 * ((n + 1) * one) * 2 ^ places := by ring
    exact_mod_cast step.trans_le (Nat.mul_le_mul_right (2 ^ places) room)

theorem Nearest.of_tie (even : i % 2 = 0) (tie : 2 * n = units i + units (i + 1)) :
    Nearest n i := by
  have middle : (2 * n : ℚ) = units i + units (i + 1) := by exact_mod_cast tie
  have next : (units i : ℚ) < units (i + 1) := by
    exact_mod_cast units_strictMono (Nat.lt_succ_self i)
  exact .of_floor (by linarith) middle.le fun _ => even

theorem TiesDown.middle (tie : TiesDown n) :
    2 * (n * one) = units (indexOf n) + units (indexOf n + 1) := by
  obtain ⟨index, even, middle⟩ := tie
  rw [indexOf, (nearest_one (n * one)).unique (.of_tie even middle), middle]

/-- A natural that ties down goes up as soon as anything is added to it after scaling. -/
theorem indexOf_lt_of_tiesDown {rest places : Nat} (positive : 0 < n) (tie : TiesDown n)
    (some : 0 < rest) : indexOf (n * 2 ^ places) < indexOf (n * 2 ^ places + rest) := by
  have normal : binade ≤ indexOf n := (nearest_indexOf n).normal (binade_le_natural positive)
  have more : n * 2 ^ places * one < (n * 2 ^ places + rest) * one := by
    rw [Nat.mul_lt_mul_right positive_one]
    exact Nat.lt_add_of_pos_right some
  refine lt_of_le_of_ne ((nearest_one _).mono (nearest_one _) (Nat.cast_le.mpr more.le)) fun same => ?_
  have upTo := (nearest_one ((n * 2 ^ places + rest) * one)).le_middle (Nat.lt_succ_self _)
  rw [← indexOf, ← same, indexOf_mul_two_pow positive, Nat.succ_eq_add_one, Nat.add_right_comm,
    units_add_binades normal, units_add_binades (Nat.le_succ_of_le normal), ← Nat.cast_add,
    ← Nat.add_mul, ← tie.middle] at upTo
  have upTo : 2 * ((n * 2 ^ places + rest) * one) ≤ 2 * (n * one) * 2 ^ places := by
    exact_mod_cast upTo
  linarith

/-! ## Rounding -/

theorem rounds_ofNat {x : Binary64} : Rounds n x ↔ x = ofNat n := rounds_iff (nearest_indexOf n)

theorem ofIndex_eq_infinite {negative : Bool} :
    ofIndex negative i = .infinite negative ↔ finiteCount ≤ i := by
  unfold ofIndex
  split
  next finite => simp [finite]
  next past => simp [not_lt.mp past]

theorem ofIndex_eq_of_lt {negative : Bool} (order : i < j) :
    ofIndex negative i = ofIndex negative j ↔ finiteCount ≤ i := by
  unfold ofIndex
  constructor
  · intro same
    by_contra! finite
    rw [dif_pos finite] at same
    split at same
    · cases same
      exact order.false
    · cases same
  · intro past
    rw [dif_neg past.not_gt, dif_neg (past.trans order.le).not_gt]

end Redex.Binary64
