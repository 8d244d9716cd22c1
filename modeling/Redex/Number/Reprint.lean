import Redex.Number.Numeral
import Redex.Number.Layout

/-! Printing a number from the text that a printer of floats has for it. The digits and the place of
the point are read off that text, zeros at either end of the digits are cut off, and the rest is laid
out anew. Counts are held in 32 bits and texts are cut inside of them; there is no result where that
fails. -/
namespace Redex

/-- What fits in 32 bits with a sign, from -2^31 up to 2^31. -/
def int32? (n : Int) : Option Int :=
  if -0x80000000 ≤ n ∧ n < 0x80000000 then some n else none

/-- A number of repetitions or characters, which is not negative. -/
def count? (n : Int) : Option Nat := if 0 ≤ n then some n.toNat else none

/-- The first `count` characters and the others. -/
def splitAt? (text : List Char) (count : Nat) : Option (List Char × List Char) :=
  if count ≤ text.length then some (text.take count, text.drop count) else none

/-- What is before and after the first such mark. -/
def splitOnce? (mark : Char) (text : List Char) : Option (List Char × List Char) :=
  match text.dropWhile (· != mark) with
  | [] => none
  | _ :: after => some (text.takeWhile (· != mark), after)

/-- An exponent in 32 bits. -/
def exponent32? (text : List Char) : Option Int :=
  let (negative, digits) := Numeral.splitSign text
  (Numeral.digits? digits).bind fun n => int32? (if negative then -(n : Int) else n)

/-- The digits before and after the point of a printed decimal, and its exponent. -/
def printedParts (text : List Char) : List Char × List Char × Int :=
  let (mantissa, exponent) := match splitOnce? 'e' text with
    | some (mantissa, tail) => (mantissa, (exponent32? tail).getD 0)
    | none => (text, 0)
  let (whole, fraction) := (splitOnce? '.' mantissa).getD (mantissa, [])
  (whole, fraction, exponent)

/-- The significant digits of a printed decimal, and the place of the point counted from the first. -/
def significant? (text : List Char) : Option (List Char × Int) := do
  let (whole, fraction, exponent) := printedParts text
  let written ← int32? ((← int32? whole.length) + exponent)
  let leading ← int32? ((whole ++ fraction).takeWhile (· == '0')).length
  let point ← int32? (written - leading)
  return (trimBoth (· == '0') (whole ++ fraction), point)

namespace Layout

/-- `place` with its counts and cuts checked. -/
def place? (layout : Layout) (digits : List Char) (point : Int) : Option (List Char) := do
  let count ← int32? digits.length
  if count ≤ point ∧ point ≤ layout.lastWhole then
    let padding ← count? (← int32? (point - count))
    return digits ++ List.replicate padding '0' ++ layout.wholeEnd
  else if 0 < point ∧ point ≤ layout.lastWhole then
    let (whole, fraction) ← splitAt? digits (← count? point)
    return whole ++ '.' :: fraction
  else if layout.firstFraction ≤ point ∧ point ≤ 0 then
    let padding ← count? (← int32? (-point))
    return '0' :: '.' :: List.replicate padding '0' ++ digits
  else
    let exponent ← int32? (point - 1)
    let (first, rest) ← splitAt? digits 1
    let size ← count? (← int32? exponent.natAbs)
    return first ++ (if rest = [] then [] else '.' :: rest) ++
      'e' :: (if exponent < 0 then '-' else '+') :: Nat.toDigits 10 size

/-- Lays the digits of a printed decimal out anew. -/
def reprint? (layout : Layout) (text : List Char) : Option (List Char) := do
  let (digits, point) ← significant? text
  layout.place? digits point

end Layout

/-- `toText` by way of a printer of the magnitudes that are not zero. -/
def Binary64.toTextBy? (print : Nat → List Char) : Binary64 → Option String
  | .nan => some "NaN"
  | .infinite negative => some (if negative then "-Infinity" else "Infinity")
  | .finite negative index =>
    if index.val = 0 then some "0"
    else (Layout.numeric.reprint? (print index)).map fun text =>
      String.ofList ((if negative then ['-'] else []) ++ text)

end Redex
