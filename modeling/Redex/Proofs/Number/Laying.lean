import Redex.Proofs.Number.Printed
import Mathlib.Data.List.TakeDrop

/-! How the digits of a number are laid out. Four layouts are told apart by the place of the point and
the count of digits; each denotes the number that the digits are of and has no zero to spare. What is
printed by way of another printer is laid out so, whatever forms that printer uses, and all counts
and cuts on the way there are in bounds. -/
namespace Redex

open Numeral
open Binary64 (Nearest one finiteCount)
open Printed (pointText)

/-- The layouts of `0.digits * 10 ^ point` by ECMA-262 Number::toString. -/
inductive Lays (digits : List Char) (point : Int) : List Char → Prop
  | padded (least : digits.length ≤ point) (most : point ≤ 21) :
      Lays digits point (digits ++ List.replicate (point - digits.length).toNat '0')
  | parted (some : 0 < point) (inside : point < digits.length) (most : point ≤ 21) :
      Lays digits point (digits.take point.toNat ++ '.' :: digits.drop point.toNat)
  | fraction (least : -6 < point) (none : point ≤ 0) :
      Lays digits point ('0' :: '.' :: List.replicate (-point).toNat '0' ++ digits)
  | exponential (outside : point ≤ -6 ∨ 21 < point) :
      Lays digits point (digits.take 1 ++ (if 1 < digits.length then '.' :: digits.drop 1 else []) ++
        'e' :: (if point - 1 < 0 then '-' else '+') :: Nat.toDigits 10 (point - 1).natAbs)

/-- A decimal without superfluous zeros. Before the point there is a single zero or no leading one,
after it no trailing one, and none begins the exponent. -/
inductive Tidy : List Char → Prop
  | parts {whole fraction tail : List Char} (digits : Digits (whole ++ fraction))
      (nonempty : whole ≠ []) (leading : whole.head? = some '0' → whole = ['0'])
      (trailing : fraction.getLast? ≠ some '0')
      (exponent : tail = [] ∨ ∃ sign power, (sign = '+' ∨ sign = '-') ∧
        tail = 'e' :: sign :: power ∧ Digits power ∧ power ≠ [] ∧ power.head? ≠ some '0') :
      Tidy (whole ++ (pointText fraction ++ tail))

variable {digits whole fraction tail body : List Char} {point exponent : Int}

/-! ## The checked layout -/

theorem count?_eq {n : Int} (natural : 0 ≤ n) : count? n = some n.toNat := if_pos natural

theorem splitAt?_eq {count : Nat} (inside : count ≤ digits.length) :
    splitAt? digits count = some (digits.take count, digits.drop count) := if_pos inside

/-- Every count and cut is in bounds. -/
theorem Layout.place?_eq (layout : Layout) (nonempty : digits ≠ []) (short : digits.length < 2 ^ 30)
    (low : -330 < point) (high : point ≤ 310) :
    layout.place? digits point = some (layout.place digits point) := by
  have some := List.length_pos_iff.mpr nonempty
  unfold place? place
  simp only [Option.bind_eq_bind]
  rw [int32?_eq (by omega) (by omega), Option.bind_some]
  split
  next padded =>
    rw [int32?_eq (by omega) (by omega), Option.bind_some, count?_eq (by omega)]
    rfl
  next =>
    split
    next parted =>
      rw [count?_eq (by omega), Option.bind_some, splitAt?_eq (by omega)]
      rfl
    next =>
      split
      next fraction =>
        rw [int32?_eq (by omega) (by omega), Option.bind_some, count?_eq (by omega)]
        rfl
      next =>
        rw [int32?_eq (by omega) (by omega), Option.bind_some, splitAt?_eq (by omega),
          Option.bind_some]
        simp only
        rw [int32?_eq (by omega) (by omega), Option.bind_some, count?_eq (by omega)]
        simp only [List.drop_eq_nil_iff, Int.toNat_natCast, exponentText]
        rfl

/-! ## The four layouts -/

theorem lays_place (digits : List Char) (point : Int) :
    Lays digits point (Layout.numeric.place digits point) := by
  unfold Layout.place Layout.numeric Layout.zeros
  simp only [List.append_nil]
  split
  next padded => exact .padded padded.1 padded.2
  next =>
    split
    next parted => exact .parted parted.1 (by omega) parted.2
    next =>
      split
      next fraction => exact .fraction (by omega) fraction.2
      next =>
        have more : (if digits.length ≤ 1 then [] else '.' :: digits.drop 1) =
            if 1 < digits.length then '.' :: digits.drop 1 else [] := by
          simp only [← not_lt, ite_not]
        rw [more]
        exact .exponential (by omega)

/-- A text made of the digits, with zeros at either end that are needed, cut by a point, and of an
exponent that makes up for where the cut is. -/
structure Cut (digits : List Char) (point : Int) (whole fraction tail : List Char) : Prop where
  split : ∃ ahead behind exponent, ExponentPart tail exponent ∧
    whole ++ fraction = List.replicate ahead '0' ++ (digits ++ List.replicate behind '0') ∧
    whole.length + exponent - ahead = point
  nonempty : whole ≠ []
  leading : whole.head? = some '0' → whole = ['0']
  trailing : fraction.getLast? ≠ some '0'
  exponent : tail = [] ∨ ∃ sign power, (sign = '+' ∨ sign = '-') ∧ tail = 'e' :: sign :: power ∧
    Digits power ∧ power ≠ [] ∧ power.head? ≠ some '0'

namespace Cut

variable (cut : Cut digits point whole fraction tail)
include cut

theorem all_digits (all : Digits digits) : Digits (whole ++ fraction) := by
  obtain ⟨ahead, behind, exponent, -, split, -⟩ := cut.split
  rw [split, digits_append, digits_append]
  exact ⟨digits_replicate_zero _, all, digits_replicate_zero _⟩

theorem spells (all : Digits digits) : ∃ x, Spells (whole ++ (pointText fraction ++ tail)) x ∧
    x.value = (pointed digits point).value := by
  obtain ⟨ahead, behind, exponent, part, split, rfl⟩ := cut.split
  have all := digits_append.mp (cut.all_digits all)
  have mark : FractionPart (pointText fraction) fraction := by
    unfold pointText
    split
    next none => exact none ▸ .absent
    next => exact .point all.2
  exact ⟨_, .parts all.1 mark (List.append_ne_nil_of_left_ne_nil cut.nonempty _) part,
    value_pointed split⟩

theorem tidy (all : Digits digits) : Tidy (whole ++ (pointText fraction ++ tail)) :=
  .parts (cut.all_digits all) cut.nonempty cut.leading cut.trailing cut.exponent

end Cut

theorem pointText_of_ne_nil (some : fraction ≠ []) : pointText fraction = '.' :: fraction :=
  if_neg some

/-- The exponent of a layout, with a sign in any case. -/
theorem exponentPart_signed (exponent : Int) : ExponentPart
    ('e' :: (if exponent < 0 then '-' else '+') :: Nat.toDigits 10 exponent.natAbs) exponent := by
  have signed : Sign [if exponent < 0 then '-' else '+'] (decide (exponent < 0)) := by
    split
    next negative => exact decide_eq_true negative ▸ .minus
    next natural => exact decide_eq_false natural ▸ .plus
  have part := ExponentPart.written (.inl rfl) signed Nat.toDigits_ne_nil
    (digits_toDigits exponent.natAbs)
  rwa [ofDigits_toDigits, signed_natAbs] at part

/-- Each layout is such a text. -/
theorem Lays.cut (lays : Lays digits point body) (significant : Significant digits) :
    ∃ whole fraction tail, body = whole ++ (pointText fraction ++ tail) ∧
      Cut digits point whole fraction tail := by
  have some := List.length_pos_iff.mpr significant.nonempty
  cases lays with
  | padded least most =>
    -- The point is behind the digits, and the zeros fill the places up to it.
    refine ⟨digits ++ List.replicate (point - digits.length).toNat '0', [], [],
      by simp [pointText], ?_, ?_, ?_, ?_, .inl rfl⟩
    · refine ⟨0, (point - digits.length).toNat, 0, .absent, by simp, ?_⟩
      rw [List.length_append, List.length_replicate]
      omega
    · simp [significant.nonempty]
    · rw [List.head?_append_of_ne_nil _ significant.nonempty]
      exact fun zero => absurd zero significant.first
    · simp
  | parted positive inside most =>
    have rest : digits.drop point.toNat ≠ [] := by
      rw [Ne, List.drop_eq_nil_iff]
      omega
    refine ⟨digits.take point.toNat, digits.drop point.toNat, [], ?_, ?_, ?_, ?_, ?_, .inl rfl⟩
    · rw [pointText_of_ne_nil rest, List.append_nil]
    · refine ⟨0, 0, 0, .absent, by simp, ?_⟩
      rw [List.length_take]
      omega
    · rw [Ne, List.take_eq_nil_iff]
      exact fun none => none.elim (by omega) significant.nonempty
    · rw [List.head?_take, if_neg (by omega)]
      exact fun zero => absurd zero significant.first
    · rw [List.getLast?_drop, if_neg (by omega)]
      exact significant.last
  | fraction least none =>
    -- The zero before the point stands alone and those after it are followed by the digits.
    refine ⟨['0'], List.replicate (-point).toNat '0' ++ digits, [], ?_, ?_, ?_, ?_, ?_, .inl rfl⟩
    · rw [pointText_of_ne_nil (by simp [significant.nonempty])]
      simp
    · refine ⟨1 + (-point).toNat, 0, 0, .absent, by simp [List.replicate_add], ?_⟩
      rw [List.length_singleton]
      omega
    · simp
    · simp
    · rw [List.getLast?_append_of_ne_nil _ significant.nonempty]
      exact significant.last
  | exponential outside =>
    have rest : (if 1 < digits.length then '.' :: digits.drop 1 else []) =
        pointText (digits.drop 1) := by
      simp only [pointText, List.drop_eq_nil_iff, ← not_lt, ite_not]
    -- The point is put behind the first digit, and the exponent says how far off that is.
    refine ⟨digits.take 1, digits.drop 1, _, by rw [rest, List.append_assoc], ?_, ?_, ?_, ?_, .inr ?_⟩
    · refine ⟨0, 0, point - 1, exponentPart_signed _, ?_, ?_⟩
      · rw [List.take_append_drop, List.replicate_zero, List.nil_append, List.append_nil]
      · rw [List.length_take]
        omega
    · rw [Ne, List.take_eq_nil_iff]
      exact fun none => none.elim (by decide) significant.nonempty
    · rw [List.head?_take, if_neg (by decide)]
      exact fun zero => absurd zero significant.first
    · rw [List.getLast?_drop]
      split
      · simp
      · exact significant.last
    · refine ⟨_, _, ?_, rfl, digits_toDigits _, Nat.toDigits_ne_nil, toDigits_head?_ne (by omega)⟩
      split
      · exact .inr rfl
      · exact .inl rfl

/-! ## By way of another printer -/

namespace Printed

variable {print : Nat → List Char} {printed : Printed} {index : Fin finiteCount}

/-- A printer that is faithful is followed by the layout of its significant digits, with nothing out
of bounds. -/
theorem Faithful.toTextBy?_eq (faithful : printed.Faithful index) (positive : 0 < index.val)
    (prints : print index = printed.text) (significant : Significant digits)
    (value : printed.decimal.value = (pointed digits point).value) (negative : Bool) :
    Binary64.toTextBy? print (.finite negative index) = some (String.ofList
      ((if negative then ['-'] else []) ++ Layout.numeric.place digits point)) := by
  obtain ⟨other, place, others, same, short, taken⟩ := faithful.significant?_eq positive index.isLt
  obtain ⟨rfl, rfl⟩ := significant.unique others (value.symm.trans same)
  have bounds := significant.point_bounds (value ▸ faithful.nearest) positive index.isLt
  have placed := Layout.numeric.place?_eq significant.nonempty short bounds.1 bounds.2
  have laid : Layout.numeric.reprint? printed.text = some (Layout.numeric.place digits point) := by
    rw [Layout.reprint?, taken, Option.bind_eq_bind, Option.bind_some]
    exact placed
  have form : Binary64.toTextBy? print (.finite negative index) =
    (Layout.numeric.reprint? (print index)).map fun text =>
      String.ofList ((if negative then ['-'] else []) ++ text) := if_neg positive.ne'
  rw [form, prints, laid, Option.map_some]

end Printed

/-- The text of digits that are laid out is a decimal of the same value without superfluous zeros. -/
theorem Lays.spells (lays : Lays digits point body) (significant : Significant digits) :
    (∃ x, Spells body x ∧ x.value = (pointed digits point).value) ∧ Tidy body := by
  obtain ⟨whole, fraction, tail, rfl, cut⟩ := lays.cut significant
  exact ⟨cut.spells significant.all, cut.tidy significant.all⟩

/-- Whatever decimal a printer of floats shows for a magnitude, its significant digits are laid out
by the place of the point. The text is for the same rational number, has no zero to spare, and no
count or cut on the way to it is out of bounds. -/
theorem number_laid_out {print : Nat → List Char} {printed : Printed} {index : Fin finiteCount}
    (positive : 0 < index.val) (prints : print index = printed.text)
    (faithful : printed.Faithful index) : ∃ digits point body, Significant digits ∧
      printed.decimal.value = (pointed digits point).value ∧
      (∀ other place, Significant other →
        printed.decimal.value = (pointed other place).value → digits = other ∧ point = place) ∧
      Lays digits point body ∧
      (∀ negative, Binary64.toTextBy? print (.finite negative index) =
        some (String.ofList ((if negative then ['-'] else []) ++ body))) ∧
      (∃ x, decimal? body = some x ∧ x.value = printed.decimal.value) ∧ Tidy body := by
  obtain ⟨digits, point, significant, value, -, -⟩ :=
    faithful.significant?_eq positive index.isLt
  have lays := lays_place digits point
  obtain ⟨⟨x, spells, same⟩, tidy⟩ := lays.spells significant
  refine ⟨digits, point, _, significant, value, ?_, lays,
    faithful.toTextBy?_eq positive prints significant value,
    ⟨x, decimal?_eq_some_iff.mpr spells, same.trans value.symm⟩, tidy⟩
  exact fun other place others same => significant.unique others (value.symm.trans same)

/-- One millionth, which is printed with an exponent and laid out without one. -/
def Printed.millionth : Printed :=
  ⟨['1'], [], some (-6), List.all_eq_true.mp (by decide), by decide⟩

theorem number_laid_out_millionth :
    0 < (⟨0x3eb0c6f7a0b5ed8d, by decide⟩ : Fin finiteCount).val ∧
    "1e-6".toList = Printed.millionth.text ∧ Printed.millionth.Faithful 0x3eb0c6f7a0b5ed8d ∧
    ∃ digits point body, Significant digits ∧
      Printed.millionth.decimal.value = (pointed digits point).value ∧
      (∀ other place, Significant other → Printed.millionth.decimal.value =
        (pointed other place).value → digits = other ∧ point = place) ∧
      Lays digits point body ∧
      (∀ negative, Binary64.toTextBy? (fun _ => "1e-6".toList)
          (.finite negative ⟨0x3eb0c6f7a0b5ed8d, by decide⟩) =
        some (String.ofList ((if negative then ['-'] else []) ++ body))) ∧
      (∃ x, decimal? body = some x ∧ x.value = Printed.millionth.decimal.value) ∧ Tidy body := by
  have prints : "1e-6".toList = Printed.millionth.text := by decide
  have faithful : Printed.millionth.Faithful 0x3eb0c6f7a0b5ed8d :=
    ⟨Decimal.nearest_eq_iff.mp (by decide +kernel), by decide⟩
  exact ⟨by decide, prints, faithful,
    @number_laid_out _ _ ⟨0x3eb0c6f7a0b5ed8d, by decide⟩ (by decide) prints faithful⟩

example : Layout.numeric.reprint? "1e-6".toList = some "0.000001".toList := by decide

example : Layout.numeric.reprint? "1.5e20".toList = some "150000000000000000000".toList := by decide

end Redex
