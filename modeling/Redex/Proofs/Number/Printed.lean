import Redex.Number.Reprint
import Redex.Proofs.Number.Significant

/-! Decimals as printers of floats write them: digits, a point with digits after it, and an exponent,
the last two only where they are needed. What such a text is taken apart into is what it was made of,
and from it come the significant digits and the place of the point. -/
namespace Redex

open Numeral
open Binary64 (Nearest one units finiteCount)

/-- A printed decimal: the digits before and after the point and the exponent. There is no point if
no digits follow it. -/
structure Printed where
  whole : List Char
  fraction : List Char
  exponent : Option Int
  digits : Digits (whole ++ fraction)
  nonempty : whole ≠ []

namespace Printed

/-- An exponent shows its sign only if it is negative. -/
def exponentText (exponent : Int) : List Char :=
  (if exponent < 0 then ['-'] else []) ++ Nat.toDigits 10 exponent.natAbs

def pointText (fraction : List Char) : List Char :=
  if fraction = [] then [] else '.' :: fraction

def text (printed : Printed) : List Char :=
  printed.whole ++ pointText printed.fraction ++
    (printed.exponent.elim [] fun exponent => 'e' :: exponentText exponent)

/-- The decimal that a printed decimal denotes. -/
def decimal (printed : Printed) : Decimal :=
  ⟨ofDigits (printed.whole ++ printed.fraction),
    printed.exponent.getD 0 - printed.fraction.length⟩

end Printed

variable {mark : Char} {before after text digits : List Char} {n point : Int}

/-! ## Cutting a text -/

theorem int32?_eq (low : -2 ^ 31 ≤ n) (high : n < 2 ^ 31) : int32? n = some n :=
  if_pos ⟨low, high⟩

theorem splitOnce?_mark (clear : ∀ c ∈ before, c ≠ mark) :
    splitOnce? mark (before ++ mark :: after) = some (before, after) := by
  have all : ∀ c ∈ before, (c != mark) = true := fun c member => bne_iff_ne.mpr (clear c member)
  simp [splitOnce?, List.dropWhile_append_of_pos all, List.takeWhile_append_of_pos all]

theorem splitOnce?_eq_none (clear : ∀ c ∈ text, c ≠ mark) : splitOnce? mark text = none := by
  have all : ∀ c ∈ text, (c != mark) = true := fun c member => bne_iff_ne.mpr (clear c member)
  simp [splitOnce?, List.dropWhile_eq_nil_iff.mpr all]

theorem exponent32?_exponentText (low : -2 ^ 31 ≤ n) (high : n < 2 ^ 31) :
    exponent32? (Printed.exponentText n) = some n := by
  have all := digits_toDigits n.natAbs
  have signed : Sign (if n < 0 then ['-'] else []) (decide (n < 0)) := by
    split
    next negative => exact decide_eq_true negative ▸ .minus
    next natural => exact decide_eq_false natural ▸ .absent
  have read : splitSign (Printed.exponentText n) = (decide (n < 0), Nat.toDigits 10 n.natAbs) :=
    splitSign_sign signed (all.head?_ne rfl) (all.head?_ne rfl)
  have count : digits? (Nat.toDigits 10 n.natAbs) = some n.natAbs :=
    digits?_eq_some_iff.mpr ⟨Nat.toDigits_ne_nil, all, (ofDigits_toDigits _).symm⟩
  rw [exponent32?, read]
  simp only [count, Option.bind_some, signed_natAbs]
  exact int32?_eq low high

namespace Printed

variable (printed : Printed)

theorem digits_ne (letter : mark.isDigit = false) :
    ∀ c ∈ printed.whole ++ printed.fraction, c ≠ mark := by
  rintro c member rfl
  exact absurd (letter.symm.trans (printed.digits c member)) (by decide)

theorem mantissa_ne_exponent :
    ∀ c ∈ printed.whole ++ pointText printed.fraction, c ≠ 'e' := by
  have clear := printed.digits_ne (show 'e'.isDigit = false by rfl)
  rw [List.forall_mem_append] at clear ⊢
  refine ⟨clear.1, ?_⟩
  unfold pointText
  split
  · exact List.forall_mem_nil _
  · exact List.forall_mem_cons.mpr ⟨by decide, clear.2⟩

theorem splitOnce?_mantissa : (splitOnce? '.' (printed.whole ++ pointText printed.fraction)).getD
    (printed.whole ++ pointText printed.fraction, []) = (printed.whole, printed.fraction) := by
  have clear := printed.digits_ne (show '.'.isDigit = false by rfl)
  rw [List.forall_mem_append] at clear
  unfold pointText
  split
  next none => rw [List.append_nil, splitOnce?_eq_none clear.1, none]; rfl
  next => rw [splitOnce?_mark clear.1]; rfl

/-- A text is taken apart into what it was made of. -/
theorem printedParts_text (low : -2 ^ 31 ≤ printed.exponent.getD 0)
    (high : printed.exponent.getD 0 < 2 ^ 31) : printedParts printed.text =
      (printed.whole, printed.fraction, printed.exponent.getD 0) := by
  have clear := printed.mantissa_ne_exponent
  have parts := printed.splitOnce?_mantissa
  unfold printedParts text
  generalize printed.whole ++ pointText printed.fraction = mantissa at *
  cases exponent : printed.exponent with
  | none =>
    rw [Option.elim_none, List.append_nil, splitOnce?_eq_none clear]
    simp only [parts, Option.getD_none]
  | some n =>
    rw [exponent, Option.getD_some] at low high
    rw [Option.elim_some, splitOnce?_mark clear]
    simp only [parts, exponent32?_exponentText low high, Option.getD_some]

/-- The text is that of a decimal that is rounded to the magnitude, and is not absurdly long. -/
structure Faithful (index : Nat) : Prop where
  nearest : Nearest (printed.decimal.value * one) index
  short : printed.text.length < 2 ^ 30

variable {printed} {index : Nat}

theorem Faithful.ofDigits_pos (faithful : printed.Faithful index) (positive : 0 < index) :
    0 < ofDigits (printed.whole ++ printed.fraction) := by
  by_contra! none
  have zero := Decimal.nearest_of_coefficient_zero (x := printed.decimal) (Nat.le_zero.mp none)
  exact positive.ne' ((Decimal.nearest_eq_iff.mpr faithful.nearest).symm.trans zero)

theorem length_digits (printed : Printed) :
    printed.whole.length + printed.fraction.length ≤ printed.text.length := by
  unfold text pointText
  split
  next none => simp [none]
  next => simp; omega

theorem length_text_le (printed : Printed) {size : Nat}
    (short : ∀ exponent ∈ printed.exponent, (exponentText exponent).length ≤ size) :
    printed.text.length ≤ printed.whole.length + printed.fraction.length + 2 + size := by
  have point : (pointText printed.fraction).length ≤ printed.fraction.length + 1 := by
    unfold pointText
    split <;> simp
  have tail : (printed.exponent.elim [] fun exponent => 'e' :: exponentText exponent).length ≤
      1 + size := by
    cases exponent : printed.exponent with
    | none => simp
    | some n =>
      have := short n exponent
      rw [Option.elim_some, List.length_cons]
      omega
  rw [text, List.length_append, List.length_append]
  omega

theorem length_exponentText_le {exponent : Int} (low : -1000 < exponent) (high : exponent < 1000) :
    (exponentText exponent).length ≤ 4 := by
  have digits : (Nat.toDigits 10 exponent.natAbs).length ≤ 3 :=
    (Nat.length_toDigits_le_iff (by decide) (by decide)).mpr (by omega)
  have sign : (if exponent < 0 then ['-'] else []).length ≤ 1 := by split <;> simp
  rw [exponentText, List.length_append]
  omega

/-- The significant digits of a printed decimal are those of its value. -/
theorem Faithful.significant?_eq (faithful : printed.Faithful index) (positive : 0 < index)
    (finite : index < finiteCount) : ∃ digits point, Significant digits ∧
      printed.decimal.value = (pointed digits point).value ∧ digits.length < 2 ^ 30 ∧
      significant? printed.text = some (digits, point) := by
  obtain ⟨significant, behind, split⟩ := exists_trimmed printed.digits (faithful.ofDigits_pos positive)
  generalize leads : (printed.whole ++ printed.fraction).takeWhile (· == '0') = leading at split
  have value : printed.decimal.value = _ := value_pointed split
  have bounds := significant.point_bounds (value ▸ faithful.nearest) positive finite
  have counts := congrArg List.length split
  simp only [List.length_append, List.length_replicate] at counts
  -- The point of the value is near zero, so that the exponent is at most about as large as the text
  -- is long, and everything fits in 32 bits.
  have long := printed.length_digits
  have short := faithful.short
  refine ⟨_, _, significant, value, by omega, ?_⟩
  unfold significant?
  rw [printedParts_text printed (by omega) (by omega)]
  simp only [leads, Option.bind_eq_bind]
  rw [int32?_eq (by omega) (by omega), Option.bind_some, int32?_eq (by omega) (by omega),
    Option.bind_some, int32?_eq (by omega) (by omega), Option.bind_some,
    int32?_eq (by omega) (by omega)]
  rfl

end Printed

end Redex
