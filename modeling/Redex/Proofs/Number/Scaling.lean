import Redex.Proofs.Number.Nearest

/-! Doubling. From the second binade on twice a magnitude is the one a binade further, and what
holds of a number and the magnitude nearest to it holds of both doubled, past the finite magnitudes
too. -/
namespace Redex.Binary64

variable {v w : ℚ} {i j : Nat}

theorem units_add_binades (normal : binade ≤ i) (count : Nat) :
    units (i + count * binade) = units i * 2 ^ count := by
  obtain ⟨significand, split, low, high⟩ := exists_significand i
  have low : binade ≤ significand := by
    refine low.elim (fun first => ?_) id
    rw [first] at split
    omega
  generalize i / binade - 1 = shift at split
  rw [split, Nat.add_right_comm, ← Nat.add_mul, units_significand (.inr low) high.le,
    units_significand (.inr low) high.le, Nat.pow_add, Nat.mul_assoc]

theorem units_binade : units binade = binade := by
  simpa using units_significand (.inl (Eq.refl 0)) (show binade ≤ 2 * binade by decide)

theorem units_double (normal : binade ≤ i) : (units (i + binade) : ℚ) = 2 * units i := by
  have doubled := units_add_binades normal 1
  rw [Nat.one_mul] at doubled
  rw [doubled]
  push_cast
  ring

namespace Nearest

theorem normal (nearest : Nearest v i) (large : (binade : ℚ) ≤ v) : binade ≤ i :=
  (nearest_units binade).mono nearest (by rwa [units_binade])

theorem double (nearest : Nearest v i) (large : (binade : ℚ) ≤ v) :
    Nearest (2 * v) (i + binade) := by
  have normal := nearest.normal large
  have even : (i + binade) % 2 = i % 2 := Nat.add_mul_mod_self_left i 2 0x8000000000000
  rcases le_total (units i : ℚ) v with low | high
  · have next := units_double (show binade ≤ i + 1 by omega)
    rw [Nat.add_right_comm] at next
    apply of_floor
    · rw [units_double normal]
      linarith
    · rw [units_double normal, next]
      linarith [nearest.le_middle (Nat.lt_succ_self i)]
    · rw [units_double normal, next, even]
      intro middle
      exact nearest.even_of_middle (Nat.succ_ne_self i) (by linarith)
  · rcases Nat.eq_or_lt_of_le normal with first | later
    · obtain rfl : v = units i := le_antisymm high (by rwa [← first, units_binade])
      rw [← units_double normal]
      exact nearest_units _
    · obtain ⟨last, rfl⟩ := Nat.exists_eq_succ_of_ne_zero (Nat.ne_zero_of_lt later)
      have before := units_double (Nat.le_of_lt_succ later)
      have doubled := units_double normal
      rw [Nat.succ_add] at doubled even ⊢
      apply of_ceil
      · rw [doubled]
        linarith
      · rw [before, doubled]
        linarith [nearest.middle_le (Nat.lt_succ_self last)]
      · rw [before, doubled, even]
        intro middle
        exact nearest.even_of_middle (Nat.succ_ne_self last).symm (by linarith)

/-- A number that is raised, but not up to the next middle. -/
theorem raise (nearest : Nearest v i) (order : v ≤ w) (below : 2 * w < units i + units (i + 1)) :
    Nearest w i := by
  have next {j : Nat} (above : i < j) : (units (i + 1) : ℚ) ≤ units j := by
    exact_mod_cast units_strictMono.monotone above
  apply of_between
  · intro j below
    linarith [nearest.middle_le below]
  · intro j above
    linarith [next above]
  · intro j other middle
    rcases Nat.lt_or_gt_of_ne other with lower | upper
    · have same : v = w := le_antisymm order (by linarith [nearest.middle_le lower])
      exact nearest.even_of_middle other (same ▸ middle)
    · linarith [next upper]

theorem scale (nearest : Nearest v i) (large : (binade : ℚ) ≤ v) (count : Nat) :
    Nearest (v * 2 ^ count) (i + count * binade) := by
  induction count with
  | zero => simpa using nearest
  | succ count ih =>
    have step := ih.double (large.trans (le_mul_of_one_le_right ?_ (one_le_pow₀ one_le_two)))
    · rw [pow_succ, ← mul_assoc, mul_comm _ 2, Nat.succ_mul, ← Nat.add_assoc]
      exact step
    · exact (Nat.cast_nonneg _).trans large

end Nearest

end Redex.Binary64
