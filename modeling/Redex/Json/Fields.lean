import Redex.Json.Value
import Redex.Text.Span

/-! Reading what a JSON value is expected to hold. -/
namespace Redex.Json

/-- A natural below 2^64, written as an integer. -/
def index? : Json → Option Nat
  | .integer n => if 0 ≤ n ∧ n < 0x10000000000000000 then some n.toNat else none
  | _ => none

def text? : Json → Option String
  | .string s => some s
  | _ => none

/-- Two indices. -/
def span? : Json → Option Span
  | .array [start, stop] => do return ⟨← index? start, ← index? stop⟩
  | _ => none

/-- A number, an integer being rounded to the nearest. -/
def number64? : Json → Option Binary64
  | .integer n => some (if n < 0 then (Binary64.ofNat n.natAbs).neg else Binary64.ofNat n.natAbs)
  | .float x => some x
  | _ => none

/-- A member that may be absent or null. -/
def optional? {α : Type} (read : Json → Option α) : Option Json → Option (Option α)
  | none => some none
  | some .null => some none
  | some value => (read value).map some

/-- A member that has to be there exactly once. -/
def once? {α : Type} (read : Json → Option α) (key : String) (members : Members) : Option α :=
  if repeats key members then none else (last? key members).bind read

end Redex.Json
