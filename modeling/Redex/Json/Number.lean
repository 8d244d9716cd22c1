import Redex.Json.Value

/-! The numbers of JSON text. An integer that fits is kept exactly. Any other
number is read as a float: leading digits are taken into a 64-bit significand
until the next one would not fit, those left over count as powers of ten or not
at all, and the significand is then scaled by a rounded power of ten. The result
can differ from the nearest number in its last bits. -/
namespace Redex.Json

/-- The parts of a number as it is written. -/
structure NumberText where
  negative : Bool
  whole : List Char
  /-- The digits after the point; empty where there is no point. -/
  fraction : List Char
  exponent : Option Int

namespace NumberText

/-- Digits, at least one, and what follows them. -/
def digits? (text : List Char) : Option (List Char × List Char) :=
  let digits := text.takeWhile Char.isDigit
  if digits = [] then none else some (digits, text.dropWhile Char.isDigit)

def value (digits : List Char) : Nat :=
  digits.foldl (fun n c => 10 * n + (c.toNat - '0'.toNat)) 0

/-- A zero alone, or digits of which the first is not zero. -/
def whole? (text : List Char) : Option (List Char × List Char) := do
  let (digits, rest) ← digits? text
  if digits.head? = some '0' ∧ 1 < digits.length then none else some (digits, rest)

def fraction? : List Char → Option (List Char × List Char)
  | '.' :: rest => digits? rest
  | rest => some ([], rest)

def exponent? : List Char → Option (Option Int × List Char)
  | [] => some (none, [])
  | mark :: rest =>
    if mark = 'e' ∨ mark = 'E' then
      let (negative, rest) := match rest with
        | '-' :: rest => (true, rest)
        | '+' :: rest => (false, rest)
        | rest => (false, rest)
      (digits? rest).map fun (digits, rest) =>
        let n : Int := value digits
        (some (if negative then -n else n), rest)
    else some (none, mark :: rest)

/-- Splits a number off the front of a text. -/
def scan? (text : List Char) : Option (NumberText × List Char) := do
  let (negative, rest) := match text with
    | '-' :: rest => (true, rest)
    | rest => (false, rest)
  let (whole, rest) ← whole? rest
  let (fraction, rest) ← fraction? rest
  let (exponent, rest) ← exponent? rest
  return (⟨negative, whole, fraction, exponent⟩, rest)

/-- Takes digits into a significand while it fits in 64 bits; how many were taken. -/
def absorb (significand : Nat) : List Char → Nat × Nat
  | [] => (significand, 0)
  | c :: rest =>
    let next := 10 * significand + (c.toNat - '0'.toNat)
    if next < 0x10000000000000000 then
      let (final, taken) := absorb next rest
      (final, taken + 1)
    else (significand, 0)

/-- The number nearest to a power of ten, of at most 308. -/
def power (exponent : Nat) : Binary64 := Decimal.toBinary64 false ⟨1, exponent⟩

/-- Scales by a power of ten, in steps of at most 308. Past the largest finite
number there is no result. -/
def scale? (x : Binary64) (exponent : Int) : Option Binary64 :=
  if exponent < -308 then
    if x.isZero then some x else scale? (x.div (power 308)) (exponent + 308)
  else if exponent < 0 then some (x.div (power exponent.natAbs))
  else if 308 < exponent then if x.isZero then some x else none
  else match x.mul (power exponent.natAbs) with
    | .infinite _ => none
    | y => some y
termination_by (-exponent).toNat
decreasing_by omega

def float? (negative : Bool) (significand : Nat) (exponent : Int) : Option Json :=
  (scale? (.ofNat significand) exponent).map fun x => .float (if negative then x.neg else x)

/-- The value of a number. Zero with a minus sign is a float. -/
def toJson? (number : NumberText) : Option Json :=
  let (significand, taken) := absorb 0 number.whole
  let missed := number.whole.length - taken
  match number.fraction, number.exponent with
  | [], none =>
    if missed = 0 ∧ number.negative = false then some (.integer significand)
    else if missed = 0 ∧ 0 < significand ∧ significand ≤ 0x8000000000000000 then
      some (.integer (-significand))
    else float? number.negative significand missed
  | fraction, exponent =>
    let (significand, taken) := absorb significand fraction
    float? number.negative significand (missed - taken + exponent.getD 0)

end NumberText
end Redex.Json
