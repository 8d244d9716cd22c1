import Redex.Language.Value

/-! References. There are no environment records, so the base of a reference is
a language value; undefined marks an unresolvable one. -/
namespace Redex

inductive PropertyName where
  | string (name : String)
  | symbol (name : Symbol)

structure Reference where
  base : Value
  name : PropertyName
  strict : Bool
  span : Option Span

namespace Reference

def hasPrimitiveBase (r : Reference) : Bool :=
  match r.base with
  | .boolean _ | .string _ | .symbol _ | .number _ => true
  | .undefined | .null => false

/-- Whether the reference is to a property. No base is an object. -/
def isProperty (r : Reference) : Bool := r.hasPrimitiveBase

def isUnresolvable (r : Reference) : Bool :=
  match r.base with
  | .undefined => true
  | _ => false

/-- The name as it is shown in messages. -/
def nameText (r : Reference) : String :=
  match r.name with
  | .string name => name
  | .symbol name => "Symbol(" ++ name.description.getD "" ++ ")"

end Reference
end Redex
