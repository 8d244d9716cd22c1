import Redex.Number.Binary64

/-! Decimal numbers, a coefficient times a power of ten, and the binary64 number
nearest to one. Exponents come from text and may be absurd, so those that
settle the result by themselves are answered before any power is formed. -/
namespace Redex

/-- The decimal `coefficient * 10 ^ exponent`. -/
structure Decimal where
  coefficient : Nat
  exponent : Int
  deriving DecidableEq, Repr

namespace Decimal

def numerator (x : Decimal) : Nat := x.coefficient * Nat.pow 10 x.exponent.toNat

def denominator (x : Decimal) : Nat := Nat.pow 10 (-x.exponent).toNat

/-- The index of the binary64 magnitude nearest to `x`. -/
def nearest (x : Decimal) : Nat :=
  Binary64.nearest (x.numerator * Binary64.one) x.denominator

/-- The binary64 number nearest to `x`, with the given sign. A coefficient of at
least one needs no more than 10^309 to be past every finite number, and one
with `b` bits, being below 10^b, needs no less than 10^(-330 - b) to matter. -/
def toBinary64 (negative : Bool) (x : Decimal) : Binary64 :=
  if x.coefficient = 0 then Binary64.ofIndex negative 0
  else if 309 < x.exponent then .infinite negative
  else if x.exponent + x.coefficient.log2 < -330 then Binary64.ofIndex negative 0
  else Binary64.ofIndex negative x.nearest

end Decimal
end Redex
