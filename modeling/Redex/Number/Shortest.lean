import Redex.Number.Decimal

/-! The shortest decimal that reads back as a given magnitude.
A decimal on the grid of multiples of a power of ten reads back exactly when
one of the value's two neighbours on that grid does, so grids are tried from
coarse to fine and the first with a hit wins. Of two hits the nearer is taken,
a tie going to the even coefficient. The grid of 10^-324 is finer than half the
least gap between magnitudes, so the search cannot run past it. -/
namespace Redex.Binary64

/-- The magnitude as a count of the grid `10 ^ exponent`, numerator and denominator. -/
def gridRatio (index : Nat) (exponent : Int) : Nat × Nat :=
  (units index * Nat.pow 10 (-exponent).toNat, one * Nat.pow 10 exponent.toNat)

/-- The neighbour of `n / d` that is accepted; of two, the nearer, a tie going to the even one. -/
def neighbour? (accepts : Nat → Bool) (n d : Nat) : Option Nat :=
  match accepts (n / d), accepts (n / d + 1) with
  | true, true => some (roundHalfEven n d)
  | true, false => some (n / d)
  | false, true => some (n / d + 1)
  | false, false => none

/-- The coefficient on the grid of `10 ^ exponent` that reads back, if there is one. -/
def onGrid? (index : Nat) (exponent : Int) : Option Nat :=
  let ratio := gridRatio index exponent
  neighbour? (fun coefficient => Decimal.nearest ⟨coefficient, exponent⟩ == index) ratio.1 ratio.2

/-- Tries the grids of `10 ^ exponent` and of the `finer` powers below it. The last one always has
a coefficient. -/
def firstGrid (onGrid? : Int → Option Nat) (last : Int → Nat) :
    (finer : Nat) → (exponent : Int) → Decimal
  | 0, exponent => ⟨last exponent, exponent⟩
  | finer + 1, exponent =>
    match onGrid? exponent with
    | some coefficient => ⟨coefficient, exponent⟩
    | none => firstGrid onGrid? last finer (exponent - 1)

/-- The coefficient on the grid of `10 ^ exponent` that is nearest to the magnitude. -/
def roundToGrid (index : Nat) (exponent : Int) : Nat :=
  let ratio := gridRatio index exponent
  roundHalfEven ratio.1 ratio.2

/-- The shortest decimal of the magnitude, which is not zero. The search starts
at a power of ten above the value. -/
def shortest (index : Nat) : Decimal :=
  let whole := units index / one
  let top := if whole = 0 then 0 else (Nat.toDigits 10 whole).length
  firstGrid (onGrid? index) (roundToGrid index) (top + 324) top

end Redex.Binary64
