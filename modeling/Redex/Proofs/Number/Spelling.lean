import Redex.Number.Numeral
import Mathlib.Algebra.Group.Nat.Defs

/-! How decimals are spelled: digits with an optional point among or around them and an optional
exponent. The grammar tells beside each spelling the decimal that it denotes, and reading accepts
just the spellings, each for its decimal. -/
namespace Redex.Numeral

/-- Nothing but decimal digits. -/
def Digits (text : List Char) : Prop := ∀ c ∈ text, c.isDigit = true

inductive Sign : List Char → (negative : Bool) → Prop
  | absent : Sign [] false
  | plus : Sign ['+'] false
  | minus : Sign ['-'] true

/-- An optional point, and the digits after it. -/
inductive FractionPart : List Char → (fraction : List Char) → Prop
  | absent : FractionPart [] []
  | point {fraction : List Char} (digits : Digits fraction) : FractionPart ('.' :: fraction) fraction

inductive ExponentPart : List Char → Int → Prop
  | absent : ExponentPart [] 0
  | written {mark : Char} {sign digits : List Char} {negative : Bool}
      (marked : mark = 'e' ∨ mark = 'E') (signed : Sign sign negative) (nonempty : digits ≠ [])
      (all : Digits digits) :
      ExponentPart (mark :: (sign ++ digits))
        (if negative then -(ofDigits digits : Int) else ofDigits digits)

/-- The spellings of a decimal without a sign. -/
inductive Spells : List Char → Decimal → Prop
  | parts {whole point fraction tail : List Char} {exponent : Int} (digits : Digits whole)
      (fractionPart : FractionPart point fraction) (nonempty : whole ++ fraction ≠ [])
      (exponentPart : ExponentPart tail exponent) :
      Spells (whole ++ (point ++ tail))
        ⟨ofDigits (whole ++ fraction), exponent - fraction.length⟩

variable {text first rest : List Char}

/-! ## Digits -/

theorem ofDigits_append (first rest : List Char) :
    ofDigits (first ++ rest) = 10 ^ rest.length * ofDigits first + ofDigits rest := by
  change Nat.ofDigitChars 10 (first ++ rest) 0 = _
  rw [Nat.ofDigitChars_append, Nat.ofDigitChars_eq_ofDigitChars_zero]
  rfl

theorem ofDigits_replicate_zero (count : Nat) : ofDigits (List.replicate count '0') = 0 :=
  Nat.ofDigitChars_replicate_zero

theorem ofDigits_toDigits (n : Nat) : ofDigits (Nat.toDigits 10 n) = n :=
  Nat.ofDigitChars_ten_toDigits

theorem digits_toDigits (n : Nat) : Digits (Nat.toDigits 10 n) := fun _ =>
  Nat.isDigit_of_mem_toDigits (by decide) (by decide)

theorem digits_append : Digits (first ++ rest) ↔ Digits first ∧ Digits rest :=
  List.forall_mem_append

theorem digits_replicate_zero (count : Nat) : Digits (List.replicate count '0') := by
  intro c member
  exact (List.mem_replicate.mp member).2 ▸ rfl

theorem Digits.takeWhile (digits : Digits first) (stop : ∀ c ∈ rest.head?, c.isDigit = false) :
    (first ++ rest).takeWhile Char.isDigit = first := by
  rw [List.takeWhile_append_of_pos digits]
  cases rest with
  | nil => exact List.append_nil first
  | cons c rest => simp [stop c rfl]

theorem Digits.dropWhile (digits : Digits first) (stop : ∀ c ∈ rest.head?, c.isDigit = false) :
    (first ++ rest).dropWhile Char.isDigit = rest := by
  rw [List.dropWhile_append_of_pos digits]
  cases rest with
  | nil => rfl
  | cons c rest => simp [stop c rfl]

theorem digits_takeWhile (text : List Char) : Digits (text.takeWhile Char.isDigit) :=
  List.all_eq_true.mp List.all_takeWhile

/-! ## Reading -/

theorem digits?_eq_some_iff {n : Nat} :
    digits? text = some n ↔ text ≠ [] ∧ Digits text ∧ n = ofDigits text := by
  unfold digits?
  split
  next accepted =>
    have digits : Digits text := List.all_eq_true.mp accepted.2
    simp [accepted.1, digits, eq_comm]
  next refused =>
    have : ¬(text ≠ [] ∧ Digits text) := fun both =>
      refused ⟨both.1, List.all_eq_true.mpr both.2⟩
    simp only [reduceCtorEq, false_iff]
    exact fun all => this ⟨all.1, all.2.1⟩

theorem splitSign_sign {sign body : List Char} {negative : Bool} (signed : Sign sign negative)
    (plus : body.head? ≠ some '+') (minus : body.head? ≠ some '-') :
    splitSign (sign ++ body) = (negative, body) := by
  cases signed with
  | absent =>
    rw [List.nil_append, splitSign]
    · rintro rest rfl
      exact minus rfl
    · rintro rest rfl
      exact plus rfl
  | plus => rfl
  | minus => rfl

theorem exists_sign (text : List Char) :
    ∃ sign, Sign sign (splitSign text).1 ∧ text = sign ++ (splitSign text).2 := by
  unfold splitSign
  split
  · exact ⟨_, .minus, rfl⟩
  · exact ⟨_, .plus, rfl⟩
  · exact ⟨_, .absent, rfl⟩

theorem signed_natAbs (n : Int) :
    (if decide (n < 0) = true then -(n.natAbs : Int) else n.natAbs) = n := by
  simp only [decide_eq_true_eq]
  split <;> omega

theorem Digits.head?_ne {digits : List Char} (all : Digits digits) {c : Char}
    (other : c.isDigit = false) : digits.head? ≠ some c := by
  intro head
  have := all c (List.mem_of_mem_head? head)
  simp [other] at this

theorem exponent?_eq_some_iff {exponent : Int} :
    exponent? text = some exponent ↔ ExponentPart text exponent := by
  constructor
  · intro read
    cases text with
    | nil =>
      obtain rfl : 0 = exponent := by simpa [exponent?] using read
      exact .absent
    | cons mark rest =>
      rw [exponent?] at read
      split at read
      next marked =>
        obtain ⟨sign, signed, split⟩ := exists_sign rest
        generalize splitSign rest = parts at *
        cases digits : digits? parts.2 with
        | none => simp [digits] at read
        | some n =>
          obtain ⟨nonempty, all, rfl⟩ := digits?_eq_some_iff.mp digits
          obtain rfl : _ = exponent := by simpa [digits] using read
          rw [split]
          exact .written marked signed nonempty all
      next => cases read
  · rintro (_ | ⟨marked, signed, nonempty, all⟩)
    · rfl
    · rw [exponent?, if_pos marked,
        splitSign_sign signed (all.head?_ne rfl) (all.head?_ne rfl)]
      simp [digits?_eq_some_iff.mpr ⟨nonempty, all, rfl⟩]

theorem ExponentPart.stops {exponent : Int} (part : ExponentPart text exponent) :
    ∀ c ∈ text.head?, c.isDigit = false := by
  rintro c head
  rcases part with _ | ⟨rfl | rfl, _, _, _⟩
  · cases head
  · cases head; rfl
  · cases head; rfl

theorem exists_digits (text : List Char) : ∃ digits rest, text = digits ++ rest ∧ Digits digits ∧
    ∀ c ∈ rest.head?, c.isDigit = false := by
  refine ⟨_, _, (List.takeWhile_append_dropWhile (p := Char.isDigit)).symm, digits_takeWhile text, ?_⟩
  intro c head
  have stop := List.head?_dropWhile_not Char.isDigit text
  rw [Option.mem_def] at head
  rwa [head] at stop

/-- A text by what is read of it: digits, a fraction, and a tail that continues neither. -/
theorem exists_parts (text : List Char) : ∃ whole point fraction tail,
    text = whole ++ (point ++ tail) ∧ Digits whole ∧ FractionPart point fraction ∧
    (∀ c ∈ tail.head?, c.isDigit = false) ∧ (point = [] → tail.head? ≠ some '.') := by
  obtain ⟨whole, rest, rfl, digits, stop⟩ := exists_digits text
  rcases rest with _ | ⟨c, rest⟩
  · exact ⟨whole, [], [], [], rfl, digits, .absent, stop, by simp⟩
  · by_cases dot : c = '.'
    · obtain ⟨fraction, tail, rfl, after, stop⟩ := exists_digits rest
      exact ⟨whole, '.' :: fraction, fraction, tail, by rw [dot, List.cons_append], digits,
        .point after, stop, by simp⟩
    · exact ⟨whole, [], [], c :: rest, rfl, digits, .absent, stop, by simp [dot]⟩

theorem decimal?_parts {whole point fraction tail : List Char} (digits : Digits whole)
    (part : FractionPart point fraction) (stop : ∀ c ∈ tail.head?, c.isDigit = false)
    (undotted : point = [] → tail.head? ≠ some '.') :
    decimal? (whole ++ (point ++ tail)) =
      if whole = [] ∧ fraction = [] then none
      else (exponent? tail).map fun exponent =>
        ⟨ofDigits (whole ++ fraction), exponent - fraction.length⟩ := by
  unfold decimal?
  cases part with
  | absent =>
    rw [List.nil_append, digits.takeWhile stop, digits.dropWhile stop]
    split
    next pair first rest found =>
      split at found
      · exact absurd rfl (undotted rfl)
      · obtain ⟨rfl, rfl⟩ := Prod.mk.inj found
        rfl
  | point after =>
    have dot : ∀ c ∈ ('.' :: (fraction ++ tail)).head?, c.isDigit = false := by
      rintro c ⟨⟩
      rfl
    rw [List.cons_append, digits.takeWhile dot, digits.dropWhile dot]
    simp only [after.takeWhile stop, after.dropWhile stop]

/-- Reading takes the spellings, each for its decimal. -/
theorem decimal?_eq_some_iff {x : Decimal} : decimal? text = some x ↔ Spells text x := by
  constructor
  · intro read
    obtain ⟨whole, point, fraction, tail, rfl, digits, part, stop, undotted⟩ := exists_parts text
    rw [decimal?_parts digits part stop undotted] at read
    split at read
    · cases read
    · next some =>
      obtain ⟨exponent, found, rfl⟩ := Option.map_eq_some_iff.mp read
      exact .parts digits part (by simpa using some) (exponent?_eq_some_iff.mp found)
  · rintro ⟨digits, part, nonempty, exponentPart⟩
    rw [decimal?_parts digits part exponentPart.stops, if_neg (by simpa using nonempty),
      exponent?_eq_some_iff.mpr exponentPart, Option.map_some]
    rintro - dot
    rcases exponentPart with _ | ⟨rfl | rfl, _, _, _⟩ <;> cases dot

end Redex.Numeral
