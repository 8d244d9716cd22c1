import Redex.Number.Rounding

/-! IEEE 754 binary64 numbers as data, with one NaN.
A finite magnitude is its index: the low 63 bits of the encoding, which count
the magnitudes upwards from zero. Its value is a whole number of units of
2^-1074, so sums, products and quotients are exact in naturals until the one
rounding that every operation ends with. An index that runs past the last
finite magnitude is infinity. -/
namespace Redex

/-- The number of magnitudes in a binade, 2^52. -/
abbrev Binary64.binade : Nat := 0x10000000000000

/-- The number of finite magnitudes: those of 2046 binades and the subnormal ones. -/
abbrev Binary64.finiteCount : Nat := 2047 * binade

inductive Binary64 where
  | nan
  | infinite (negative : Bool)
  | finite (negative : Bool) (index : Fin Binary64.finiteCount)
  deriving DecidableEq

namespace Binary64

/-- The value of the magnitude with this index, in units of 2^-1074. Below the
first binade the steps are single units, and from the second one on each binade
doubles them. -/
def units (index : Nat) : Nat :=
  if index < binade then index
  else (binade + index % binade) * Nat.pow 2 (index / binade - 1)

/-- One, in units of 2^-1074. -/
abbrev one : Nat := Nat.pow 2 1074

/-- The index of the magnitude nearest to `n / d` units, ties to even. The
index is even exactly when the last bit of the significand is zero, and a
significand that rounds up to 2^53 carries into the next binade by itself. -/
def nearest (n d : Nat) : Nat :=
  let shift := Nat.log2 (n / d) - 52
  shift * binade + roundHalfEven n (d * Nat.pow 2 shift)

/-- The number with this sign and magnitude index. -/
def ofIndex (negative : Bool) (index : Nat) : Binary64 :=
  if h : index < finiteCount then .finite negative ⟨index, h⟩ else .infinite negative

abbrev zero : Binary64 := .finite false ⟨0, by decide⟩

/-- The number nearest to a natural. -/
def ofNat (n : Nat) : Binary64 := ofIndex false (nearest (n * one) 1)

/-- The place of the sign in an encoding, 2^63. -/
abbrev signBit : Nat := 0x8000000000000000

def ofBits (bits : UInt64) : Binary64 :=
  let index := bits.toNat % signBit
  let negative := decide (signBit ≤ bits.toNat)
  if index ≤ finiteCount then ofIndex negative index else .nan

/-- The encoding; a NaN has none of its own, since payloads are not kept. -/
def toBits? : Binary64 → Option UInt64
  | .nan => none
  | .infinite negative => some (encode negative finiteCount)
  | .finite negative index => some (encode negative index)
where
  encode (negative : Bool) (index : Nat) : UInt64 :=
    UInt64.ofNat (index + if negative then signBit else 0)

def isZero : Binary64 → Bool
  | .finite _ index => index == 0
  | _ => false

def neg : Binary64 → Binary64
  | .nan => .nan
  | .infinite negative => .infinite !negative
  | .finite negative index => .finite (!negative) index

/-- A finite number as a signed count of units. -/
def signedUnits (negative : Bool) (index : Nat) : Int :=
  if negative then -(units index : Int) else units index

/-- An exact sum of zero is negative only when both operands are. -/
def add : Binary64 → Binary64 → Binary64
  | .nan, _ => .nan
  | _, .nan => .nan
  | .infinite s, .infinite t => if s = t then .infinite s else .nan
  | .infinite s, .finite _ _ => .infinite s
  | .finite _ _, .infinite t => .infinite t
  | .finite s j, .finite t k =>
    let sum := signedUnits s j + signedUnits t k
    if sum = 0 then .finite (s && t) ⟨0, by decide⟩
    else ofIndex (decide (sum < 0)) (nearest sum.natAbs 1)

def mul : Binary64 → Binary64 → Binary64
  | .nan, _ => .nan
  | _, .nan => .nan
  | .infinite s, .infinite t => .infinite (s ^^ t)
  | .infinite s, .finite t k => if k.val = 0 then .nan else .infinite (s ^^ t)
  | .finite s j, .infinite t => if j.val = 0 then .nan else .infinite (s ^^ t)
  | .finite s j, .finite t k => ofIndex (s ^^ t) (nearest (units j * units k) one)

def div : Binary64 → Binary64 → Binary64
  | .nan, _ => .nan
  | _, .nan => .nan
  | .infinite _, .infinite _ => .nan
  | .infinite s, .finite t _ => .infinite (s ^^ t)
  | .finite s _, .infinite t => .finite (s ^^ t) ⟨0, by decide⟩
  | .finite s j, .finite t k =>
    if k.val = 0 then if j.val = 0 then .nan else .infinite (s ^^ t)
    else ofIndex (s ^^ t) (nearest (units j * one) (units k))

/-- Numeric equality: a NaN equals nothing and the zeros equal each other. -/
def equal : Binary64 → Binary64 → Bool
  | .nan, _ => false
  | _, .nan => false
  | x, y => x == y || x.isZero && y.isZero

/-- Identity as a value: a NaN is itself and the zeros differ. -/
def same (x y : Binary64) : Bool := x == y

theorem equal_self (x : Binary64) : x.equal x = true ↔ x ≠ .nan := by
  cases x <;> simp [equal]

theorem equal_comm (x y : Binary64) : x.equal y = y.equal x := by
  cases x <;> cases y <;> simp [equal, Bool.and_comm, Bool.beq_comm]

end Binary64
end Redex
