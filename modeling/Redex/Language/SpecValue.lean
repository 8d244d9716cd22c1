import Redex.Language.Completion
import Redex.Language.Reference

/-! What the evaluation of a node can give: a language value, or a list,
completion or reference of the specification. GetValue makes a value of it. -/
namespace Redex

inductive SpecValue where
  | value (v : Spanned Value)
  | list (items : List SpecValue)
  | completion (c : Completion)
  | reference (r : Reference)

namespace SpecValue

def typeName : SpecValue → String
  | .value v => v.value.typeName
  | .list _ => "List"
  | .completion _ => "Completion"
  | .reference _ => "Reference"

mutual

/-- Whether comparing with itself part by part, numbers as numbers, holds. -/
def equalsItself : SpecValue → Bool
  | .value v => v.value.equal v.value
  | .list items => allEqualThemselves items
  | .completion c => c.value.all fun v => v.equal v
  | .reference r => r.base.equal r.base

def allEqualThemselves : List SpecValue → Bool
  | [] => true
  | item :: rest => item.equalsItself && allEqualThemselves rest

end

/-- GetValue. A completion is unwrapped, so an abrupt one comes back as it is. No
reference can be read: one without a base is an error, and for the others there
are neither objects nor environment records. -/
def getValue : SpecValue → Except Abrupt (Spanned Value)
  | .value v => .ok v
  | .completion c => c.returnIfAbrupt
  | .list _ => .error (.failure (.violation .listDereferenced))
  | .reference r =>
    .error (.failure
      (if r.isUnresolvable then .unresolvable r.nameText
        else if r.hasPrimitiveBase then .toObject
        else .environment))

end SpecValue
end Redex
