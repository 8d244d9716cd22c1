import Redex.Language.Failure
import Redex.Language.Value
import Redex.Number.Layout
import Redex.Number.Numeral

/-! Type conversion. A converted value keeps the span of what it was made from. -/
namespace Redex.Value

/-- ToPrimitive. Every value is primitive. -/
def toPrimitive (v : Spanned Value) : Spanned Value := v

/-- ToNumber. -/
def toNumber : Value → Except Failure Binary64
  | .undefined => .ok .nan
  | .null => .ok .zero
  | .boolean b => .ok (if b then .ofNat 1 else .zero)
  | .string s => .ok (.ofText s)
  | .symbol _ => .error .symbolToNumber
  | .number x => .ok x

/-- ToString. -/
def toText : Value → Except Failure String
  | .undefined => .ok "undefined"
  | .null => .ok "null"
  | .boolean b => .ok (if b then "true" else "false")
  | .string s => .ok s
  | .symbol _ => .error .symbolToString
  | .number x => .ok x.toText

/-- An object. There is no object model, so this always fails. -/
def newObject : Except Failure Value := .error .objects

end Redex.Value
