import Redex.Number.Decimal
import Redex.Text.Blank

/-! Reading a number from text by the ECMA-262 StringNumericLiteral grammar:
padding around nothing, an infinity, a radix literal or a signed decimal. All
other texts are NaN. Radix digits are folded in one at a time, each step
rounding; a decimal is rounded once. -/
namespace Redex

namespace Numeral

/-- The natural that decimal digits denote. -/
def ofDigits (digits : List Char) : Nat :=
  digits.foldl (fun n c => 10 * n + (c.toNat - '0'.toNat)) 0

/-- A leading sign, whether it is a minus, and what follows it. -/
def splitSign : List Char → Bool × List Char
  | '-' :: rest => (true, rest)
  | '+' :: rest => (false, rest)
  | text => (false, text)

/-- A number written in digits alone, at least one. -/
def digits? (text : List Char) : Option Nat :=
  if text ≠ [] ∧ text.all Char.isDigit then some (ofDigits text) else none

/-- The exponent part that may end a decimal: nothing, or `e` and an integer. -/
def exponent? : List Char → Option Int
  | [] => some 0
  | mark :: rest =>
    if mark = 'e' ∨ mark = 'E' then
      let (negative, text) := splitSign rest
      (digits? text).map fun n => if negative then -(n : Int) else n
    else none

/-- An unsigned decimal: digits, at least one before or after an optional point,
and an optional exponent. -/
def decimal? (text : List Char) : Option Decimal :=
  let whole := text.takeWhile Char.isDigit
  let (fraction, rest) := match text.dropWhile Char.isDigit with
    | '.' :: after => (after.takeWhile Char.isDigit, after.dropWhile Char.isDigit)
    | rest => ([], rest)
  if whole = [] ∧ fraction = [] then none
  else (exponent? rest).map fun exponent =>
    ⟨ofDigits (whole ++ fraction), exponent - fraction.length⟩

/-- The radix that follows a leading zero. -/
def radix? (mark : Char) : Option Nat :=
  if mark = 'x' ∨ mark = 'X' then some 16
  else if mark = 'o' ∨ mark = 'O' then some 8
  else if mark = 'b' ∨ mark = 'B' then some 2
  else none

/-- The value of a digit or letter, if it is below the radix. -/
def radixDigit? (radix : Nat) (c : Char) : Option Nat :=
  let value? :=
    if '0' ≤ c ∧ c ≤ '9' then some (c.toNat - '0'.toNat)
    else if 'a' ≤ c ∧ c ≤ 'z' then some (c.toNat - 'a'.toNat + 10)
    else if 'A' ≤ c ∧ c ≤ 'Z' then some (c.toNat - 'A'.toNat + 10)
    else none
  value?.filter (· < radix)

/-- Takes one more digit into a number read in some radix. -/
def shiftIn (radix : Nat) (x : Binary64) (digit : Nat) : Binary64 :=
  (x.mul (.ofNat radix)).add (.ofNat digit)

/-- The number that the digits of a radix literal give, most significant first. -/
def radixNumber? (radix : Nat) (digits : List Char) : Option Binary64 :=
  if digits = [] then none
  else digits.foldlM (fun x c => (radixDigit? radix c).map (shiftIn radix x)) Binary64.zero

/-- A signed decimal or infinity. -/
def signed? (text : List Char) : Option Binary64 :=
  let (negative, body) := splitSign text
  if body = "Infinity".toList then some (.infinite negative)
  else (decimal? body).map (·.toBinary64 negative)

/-- The number that a text without padding denotes. -/
def number? : List Char → Option Binary64
  | [] => some Binary64.zero
  | '0' :: mark :: rest =>
    match radix? mark with
    | some radix => radixNumber? radix rest
    | none => signed? ('0' :: mark :: rest)
  | text => signed? text

end Numeral

/-- StringToNumber. A text outside the grammar is NaN. -/
def Binary64.ofText (text : String) : Binary64 :=
  (Numeral.number? (trimBoth isPadding text.toList)).getD .nan

end Redex
