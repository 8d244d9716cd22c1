import Redex.Proofs.Number.Laying
import Redex.Proofs.Number.Numeric
import Redex.Proofs.Number.Shortest

/-! Reading a printed number. What a number is printed as reads as that number, whatever printer of
floats the digits are taken from, as long as its decimals round to the magnitudes; only the sign of
zero is lost. One such printer shows the shortest decimal in the forms in which floats are usually
shown, and by way of it numbers are printed as they are. -/
namespace Redex

open Numeral
open Binary64 (Nearest one finiteCount ofIndex)

/-! ## A printer of floats -/

namespace Printed

variable {digits : List Char} {point : Int}

/-- Significant digits with zeros at either end, cut by a point. -/
def ofSplit (significant : Significant digits) (ahead behind : Nat) (whole fraction : List Char)
    (exponent : Option Int) (nonempty : whole ≠ [])
    (split : whole ++ fraction =
      List.replicate ahead '0' ++ (digits ++ List.replicate behind '0')) : Printed where
  whole := whole
  fraction := fraction
  exponent := exponent
  digits := by
    rw [split, digits_append, digits_append]
    exact ⟨digits_replicate_zero _, significant.all, digits_replicate_zero _⟩
  nonempty := nonempty

/-- How floats are usually shown: from 10^-5 up to 10^16 without an exponent, and then always with a
point. -/
def ofSignificant (significant : Significant digits) (point : Int) : Printed :=
  if padded : digits.length ≤ point ∧ point ≤ 16 then
    ofSplit significant 0 ((point - digits.length).toNat + 1)
      (digits ++ List.replicate (point - digits.length).toNat '0') ['0'] none
      (List.append_ne_nil_of_left_ne_nil significant.nonempty _)
      (by simp [List.replicate_succ'])
  else if parted : 0 < point ∧ point ≤ 16 then
    ofSplit significant 0 0 (digits.take point.toNat) (digits.drop point.toNat) none
      (fun none => (List.take_eq_nil_iff.mp none).elim (by omega) significant.nonempty)
      (by simp)
  else if -5 < point ∧ point ≤ 0 then
    ofSplit significant (1 + (-point).toNat) 0 ['0'] (List.replicate (-point).toNat '0' ++ digits)
      none (by simp) (by simp [List.replicate_add])
  else
    ofSplit significant 0 0 (digits.take 1) (digits.drop 1) (some (point - 1))
      (fun none => (List.take_eq_nil_iff.mp none).elim (by decide) significant.nonempty)
      (by rw [List.take_append_drop, List.replicate_zero, List.nil_append, List.append_nil])

theorem split_ofSplit (significant : Significant digits) {ahead behind : Nat}
    {whole fraction : List Char} {exponent : Option Int} (nonempty : whole ≠ [])
    (split : whole ++ fraction = List.replicate ahead '0' ++ (digits ++ List.replicate behind '0')) :
    let printed := ofSplit significant ahead behind whole fraction exponent nonempty split
    printed.whole ++ printed.fraction =
      List.replicate ahead '0' ++ (digits ++ List.replicate behind '0') :=
  split

/-- In each form few zeros are added, and the cut is at the point but for the exponent. -/
theorem ofSignificant_split (significant : Significant digits) (point : Int) :
    let printed := ofSignificant significant point
    ∃ ahead behind, printed.whole ++ printed.fraction =
        List.replicate ahead '0' ++ (digits ++ List.replicate behind '0') ∧
      printed.whole.length + printed.exponent.getD 0 - ahead = point ∧ ahead + behind ≤ 20 ∧
      ∀ exponent ∈ printed.exponent, exponent = point - 1 := by
  have some := List.length_pos_iff.mpr significant.nonempty
  unfold ofSignificant
  split
  next padded =>
    refine ⟨_, _, split_ofSplit significant _ _, ?_, by omega, by simp [ofSplit]⟩
    simp only [ofSplit, List.length_append, List.length_replicate, Option.getD_none]
    omega
  next =>
    split
    next parted =>
      refine ⟨_, _, split_ofSplit significant _ _, ?_, by omega, by simp [ofSplit]⟩
      simp only [ofSplit, List.length_take, Option.getD_none]
      omega
    next =>
      split
      next fraction =>
        refine ⟨_, _, split_ofSplit significant _ _, ?_, by omega, by simp [ofSplit]⟩
        simp only [ofSplit, List.length_singleton, Option.getD_none]
        omega
      next =>
        refine ⟨_, _, split_ofSplit significant _ _, ?_, by omega, by simp [ofSplit]⟩
        simp only [ofSplit, List.length_take, Option.getD_some]
        omega

theorem value_ofSignificant (significant : Significant digits) (point : Int) :
    (ofSignificant significant point).decimal.value = (pointed digits point).value := by
  obtain ⟨ahead, behind, split, place, -, -⟩ := ofSignificant_split significant point
  exact (value_pointed split).trans (by rw [place])

theorem length_ofSignificant_le (significant : Significant digits) (low : -330 < point)
    (high : point ≤ 310) : (ofSignificant significant point).text.length ≤ digits.length + 30 := by
  obtain ⟨ahead, behind, split, -, few, power⟩ := ofSignificant_split significant point
  have counts := congrArg List.length split
  simp only [List.length_append, List.length_replicate] at counts
  have short : ∀ exponent ∈ (ofSignificant significant point).exponent,
      (exponentText exponent).length ≤ 4 := by
    intro exponent member
    have value := power exponent member
    exact length_exponentText_le (by omega) (by omega)
  have text := length_text_le _ short
  omega

end Printed

/-- A printer whose texts are decimals that round to the magnitudes. -/
def FaithfulPrinter (print : Nat → List Char) : Prop :=
  ∀ index, 0 < index → index < finiteCount →
    ∃ printed : Printed, print index = printed.text ∧ printed.Faithful index

theorem pointed_toDigits (x : Decimal) : pointed (Nat.toDigits 10 x.coefficient)
    ((Nat.toDigits 10 x.coefficient).length + x.exponent) = x := by
  unfold pointed
  rw [ofDigits_toDigits, add_sub_cancel_left]

/-- The usual text of a decimal whose coefficient does not end in a zero. -/
def floatText (x : Decimal) : List Char :=
  if last : x.coefficient % 10 ≠ 0 then
    (Printed.ofSignificant (significant_toDigits last)
      ((Nat.toDigits 10 x.coefficient).length + x.exponent)).text
  else []

/-- A printer of the shortest decimals. -/
def printShortest (index : Nat) : List Char := floatText (Binary64.shortest index)

theorem exists_floatText {x : Decimal} {index : Nat} (last : x.coefficient % 10 ≠ 0)
    (reads : x.nearest = index) (fine : -324 ≤ x.exponent) (positive : 0 < index)
    (finite : index < finiteCount) : ∃ printed : Printed, floatText x = printed.text ∧
      printed.Faithful index ∧ printed.decimal.value = x.value := by
  have significant := significant_toDigits last
  have value := Printed.value_ofSignificant significant
    ((Nat.toDigits 10 x.coefficient).length + x.exponent)
  have nearest := Decimal.nearest_eq_iff.mp reads
  have bounds := significant.point_bounds ((pointed_toDigits x).symm ▸ nearest) positive finite
  have length := Printed.length_ofSignificant_le significant bounds.1 bounds.2
  rw [pointed_toDigits] at value
  exact ⟨_, dif_pos last, ⟨value.symm ▸ nearest, by omega⟩, value⟩

theorem faithful_printShortest : FaithfulPrinter printShortest := by
  intro index positive finite
  obtain ⟨reads, last, fine⟩ := Binary64.shortest_spec positive
  obtain ⟨printed, prints, faithful, -⟩ := exists_floatText last reads fine positive finite
  exact ⟨printed, prints, faithful⟩

/-! ## Reading a text -/

theorem Numeral.isPadding_eq_false {c : Char} (known : c.isDigit = true ∨ c ∈ punctuation) :
    isPadding c = false := by
  rcases known with digit | mark
  · obtain ⟨value, below, rfl, -⟩ := exists_digitChar digit
    have plain : ∀ value < 10, isPadding (Nat.digitChar value) = false := by decide
    exact plain value below
  · have plain : ∀ c ∈ punctuation, isPadding c = false := List.all_iff_forall_prop.mp (by decide)
    exact plain c mark

theorem Numeral.Sign.characters {sign : List Char} {negative : Bool} (signed : Sign sign negative) :
    ∀ c ∈ sign, c.isDigit = true ∨ c ∈ punctuation := by
  cases signed <;> exact List.all_iff_forall_prop.mp (by decide)

namespace Binary64

variable {sign body : List Char} {negative : Bool} {x y : Binary64} {decimal : Decimal}

/-- A signed decimal is read as the number it is rounded to. -/
theorem ofText_spells (signed : Sign sign negative) (spells : Spells body decimal) :
    ofText (String.ofList (sign ++ body)) = ofIndex negative decimal.nearest := by
  have clear : ∀ c ∈ sign ++ body, isPadding c = false := by
    rw [List.forall_mem_append]
    exact ⟨fun c member => isPadding_eq_false (signed.characters c member),
      fun c member => isPadding_eq_false (spells.characters c member)⟩
  have bare : trimBoth isPadding (sign ++ body) = sign ++ body :=
    trimBoth_self (fun c head => clear c (List.mem_of_mem_head? head))
      (fun c last => clear c (List.mem_of_getLast? last))
  rw [ofText, String.toList_ofList, bare, spells.number?_eq signed, Option.getD_some]

/-- The number without the sign of a zero. -/
def dropZeroSign (x : Binary64) : Binary64 := if x.isZero then zero else x

theorem dropZeroSign_finite (negative : Bool) (index : Fin finiteCount) :
    (finite negative index).dropZeroSign =
      if index.val = 0 then zero else .finite negative index := by
  have none : (finite negative index).isZero = true ↔ index.val = 0 := by
    rw [isZero, beq_iff_eq, Fin.ext_iff]
    rfl
  simp only [dropZeroSign, none]

theorem toTextBy?_floatText {print : Nat → List Char} {index : Fin finiteCount}
    (prints : print index = floatText decimal) (last : decimal.coefficient % 10 ≠ 0)
    (reads : decimal.nearest = index) (fine : -324 ≤ decimal.exponent) (positive : 0 < index.val) :
    toTextBy? print (.finite negative index) = some (String.ofList
      ((if negative then ['-'] else []) ++ Layout.numeric.decimal decimal)) := by
  obtain ⟨printed, shown, faithful, value⟩ :=
    exists_floatText last reads fine positive index.isLt
  have same : printed.decimal.value = (pointed (Nat.toDigits 10 decimal.coefficient)
      ((Nat.toDigits 10 decimal.coefficient).length + decimal.exponent)).value := by
    rw [value, pointed_toDigits]
  exact faithful.toTextBy?_eq positive (prints.trans shown) (significant_toDigits last) same negative

/-- Numbers are printed as by way of the printer of shortest decimals. -/
theorem toTextBy?_printShortest (x : Binary64) : toTextBy? printShortest x = some x.toText := by
  cases x with
  | nan => rfl
  | infinite negative => rfl
  | finite negative index =>
    by_cases zero : index.val = 0
    · rw [toTextBy?, if_pos zero, toText, if_pos zero]
    · have positive := Nat.pos_of_ne_zero zero
      obtain ⟨reads, last, fine⟩ := shortest_spec positive
      have prints : printShortest index = floatText (shortest index) := rfl
      rw [toTextBy?_floatText prints last reads fine positive, toText, if_neg zero]
      rfl

/-- What is printed by way of a faithful printer reads as the number itself. -/
theorem exists_toTextBy? {print : Nat → List Char} (faithful : FaithfulPrinter print)
    (x : Binary64) : ∃ text, toTextBy? print x = some text ∧ ofText text = x.dropZeroSign := by
  cases x with
  | nan => exact ⟨_, rfl, by decide +kernel⟩
  | infinite negative => exact ⟨_, rfl, by cases negative <;> decide +kernel⟩
  | finite negative index =>
    by_cases zero : index.val = 0
    · refine ⟨"0", if_pos zero, ?_⟩
      rw [dropZeroSign_finite, if_pos zero]
      decide +kernel
    · have positive := Nat.pos_of_ne_zero zero
      obtain ⟨printed, prints, reads⟩ := faithful index positive index.isLt
      obtain ⟨digits, point, significant, value, -, -⟩ :=
        reads.significant?_eq positive index.isLt
      obtain ⟨⟨decimal, spells, same⟩, -⟩ := (lays_place digits point).spells significant
      have signed : Sign (if negative then ['-'] else []) negative := by
        cases negative
        · exact .absent
        · exact .minus
      refine ⟨_, reads.toTextBy?_eq positive prints significant value negative, ?_⟩
      have nearest : decimal.nearest = index :=
        Decimal.nearest_eq_iff.mpr (same.trans value.symm ▸ reads.nearest)
      rw [ofText_spells signed spells, nearest, dropZeroSign_finite, if_neg zero, ofIndex,
        dif_pos index.isLt]

/-- A number is printed in one way whatever the sign of zero. -/
theorem toTextBy?_dropZeroSign (print : Nat → List Char) (x : Binary64) :
    toTextBy? print x.dropZeroSign = toTextBy? print x := by
  cases x with
  | nan => rfl
  | infinite negative => rfl
  | finite negative index =>
    rw [dropZeroSign_finite]
    split
    next none => exact (if_pos none).symm
    next => rfl

theorem toTextBy?_eq_iff {print : Nat → List Char} (faithful : FaithfulPrinter print) :
    toTextBy? print x = toTextBy? print y ↔ x.dropZeroSign = y.dropZeroSign := by
  constructor
  · intro same
    obtain ⟨text, printed, reads⟩ := exists_toTextBy? faithful x
    obtain ⟨other, printed', reads'⟩ := exists_toTextBy? faithful y
    obtain rfl : text = other := Option.some.inj (by rw [← printed, same, printed'])
    exact reads.symm.trans reads'
  · intro same
    rw [← toTextBy?_dropZeroSign, same, toTextBy?_dropZeroSign]

/-- A number that is printed reads as itself but for the sign of zero, so that just the two zeros
share a text: of the numbers as they are printed here, and by way of any printer of floats whose
decimals round to the magnitudes. -/
theorem ofText_toText {print : Nat → List Char} (faithful : FaithfulPrinter print) :
    (∀ x, ∃ text, toTextBy? print x = some text ∧ ofText text = x.dropZeroSign) ∧
    (∀ x y, toTextBy? print x = toTextBy? print y ↔ x.dropZeroSign = y.dropZeroSign) ∧
    (∀ x : Binary64, ofText x.toText = x.dropZeroSign) ∧
    (∀ x y : Binary64, x.toText = y.toText ↔ x.dropZeroSign = y.dropZeroSign) := by
  refine ⟨exists_toTextBy? faithful, fun _ _ => toTextBy?_eq_iff faithful, fun x => ?_, fun x y => ?_⟩
  · obtain ⟨text, printed, reads⟩ := exists_toTextBy? faithful_printShortest x
    rw [toTextBy?_printShortest] at printed
    rw [Option.some.inj printed, reads]
  · rw [← toTextBy?_eq_iff faithful_printShortest, toTextBy?_printShortest,
      toTextBy?_printShortest, Option.some_inj]

theorem ofText_toText_shortest : FaithfulPrinter printShortest ∧
    (∀ x, ∃ text, toTextBy? printShortest x = some text ∧ ofText text = x.dropZeroSign) ∧
    (∀ x y, toTextBy? printShortest x = toTextBy? printShortest y ↔
      x.dropZeroSign = y.dropZeroSign) ∧
    (∀ x : Binary64, ofText x.toText = x.dropZeroSign) ∧
    (∀ x y : Binary64, x.toText = y.toText ↔ x.dropZeroSign = y.dropZeroSign) :=
  ⟨faithful_printShortest, ofText_toText faithful_printShortest⟩

end Binary64

end Redex
