import Redex.Number.Binary64
import Redex.Text.Span

/-! ECMAScript language values. There is no object model, so no value is an
object. Symbols are told apart by identity and not by their descriptions. -/
namespace Redex

structure Symbol where
  id : Nat
  description : Option String

inductive Value where
  | undefined
  | null
  | boolean (value : Bool)
  | string (value : String)
  | symbol (value : Symbol)
  | number (value : Binary64)

namespace Value

/-- The name of the type, `Type(x)`. -/
def typeName : Value → String
  | .undefined => "Undefined"
  | .null => "Null"
  | .boolean _ => "Boolean"
  | .string _ => "String"
  | .symbol _ => "Symbol"
  | .number _ => "Number"

def isString : Value → Bool
  | .string _ => true
  | _ => false

/-- Equality that compares numbers as numbers, so that a NaN differs from itself. -/
def equal : Value → Value → Bool
  | .undefined, .undefined => true
  | .null, .null => true
  | .boolean a, .boolean b => a == b
  | .string a, .string b => a == b
  | .symbol a, .symbol b => a.id == b.id
  | .number a, .number b => a.equal b
  | _, _ => false

/-- SameValue: a NaN is itself, and the zeros differ. -/
def same : Value → Value → Bool
  | .number a, .number b => a.same b
  | a, b => a.equal b

theorem equal_self (v : Value) : v.equal v = true ↔ v ≠ .number .nan := by
  cases v <;> simp [equal, Binary64.equal_self]

theorem same_self (v : Value) : v.same v = true := by
  cases v <;> simp [same, equal, Binary64.same]

end Value

/-- Something with the span of the source that it came from; none for what was
made up along the way. -/
structure Spanned (α : Type) where
  value : α
  span : Option Span
  deriving DecidableEq

/-- Changes the value and keeps the span. -/
def Spanned.map {α β : Type} (f : α → β) (x : Spanned α) : Spanned β := ⟨f x.value, x.span⟩

end Redex
