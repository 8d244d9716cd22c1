import Redex.Number.Shortest

/-! Laying the digits of a number out as text: whole, with a point, or with an
exponent. A layout is the few decisions in which formats differ; `numeric` is
ECMA-262 Number::toString and `json` is how JSON documents are printed. -/
namespace Redex

structure Layout where
  /-- The last position of the point that is written without an exponent. -/
  lastWhole : Int
  /-- The position of the point, counted from the first digit, from which on
  zeros are written before the digits in place of an exponent. -/
  firstFraction : Int
  /-- What follows a number without a fraction. -/
  wholeEnd : List Char

namespace Layout

def numeric : Layout := ⟨21, -5, []⟩

def json : Layout := ⟨16, -4, ['.', '0']⟩

def zeros (count : Int) : List Char := List.replicate count.toNat '0'

/-- An exponent always shows its sign. -/
def exponentText (exponent : Int) : List Char :=
  (if exponent < 0 then '-' else '+') :: Nat.toDigits 10 exponent.natAbs

/-- Writes `0.digits * 10 ^ point`. -/
def place (layout : Layout) (digits : List Char) (point : Int) : List Char :=
  let count : Int := digits.length
  if count ≤ point ∧ point ≤ layout.lastWhole then
    digits ++ zeros (point - count) ++ layout.wholeEnd
  else if 0 < point ∧ point ≤ layout.lastWhole then
    digits.take point.toNat ++ '.' :: digits.drop point.toNat
  else if layout.firstFraction ≤ point ∧ point ≤ 0 then
    '0' :: '.' :: zeros (-point) ++ digits
  else
    digits.take 1 ++ (if digits.length ≤ 1 then [] else '.' :: digits.drop 1) ++
      'e' :: exponentText (point - 1)

/-- Writes a decimal, whose digits are those of its coefficient. -/
def decimal (layout : Layout) (x : Decimal) : List Char :=
  let digits := Nat.toDigits 10 x.coefficient
  layout.place digits (digits.length + x.exponent)

/-- Writes a finite number that is not zero by its shortest decimal. -/
def finite (layout : Layout) (negative : Bool) (index : Nat) : List Char :=
  (if negative then ['-'] else []) ++ layout.decimal (Binary64.shortest index)

end Layout

namespace Binary64

/-- Number::toString with radix ten. Neither zero shows its sign. -/
def toText : Binary64 → String
  | .nan => "NaN"
  | .infinite negative => if negative then "-Infinity" else "Infinity"
  | .finite negative index =>
    if index.val = 0 then "0" else String.ofList (Layout.numeric.finite negative index)

end Binary64
end Redex
