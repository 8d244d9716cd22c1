import Redex.Evaluation.Refusal
import Redex.Syntax.Operator

/-! What ends an evaluation without a result. An abrupt completion is not a
failure: it is a result. -/
namespace Redex

/-- A rule that completion records and GetValue rely on and that did not hold. -/
inductive Violation where
  | emptyNormal
  | unexpectedAbrupt
  | emptyReturnOrThrow
  | listDereferenced
  deriving DecidableEq, Repr

def Violation.message : Violation → String
  | .emptyNormal => "normal completion has an empty value"
  | .unexpectedAbrupt => "abrupt completion where none was expected"
  | .emptyReturnOrThrow => "return or throw completion has an empty value"
  | .listDereferenced => "GetValue called on a List"

inductive Failure where
  /-- A node of a type that is not evaluated. -/
  | unsupportedNode (type : String)
  | unsupportedOperator (operator : Operator)
  /-- A literal that is not null, a boolean, a number or a string. -/
  | unsupportedLiteral (typeName : String)
  /-- An object was asked for. -/
  | objects
  | symbolToNumber
  | symbolToString
  /-- A reference without a base. -/
  | unresolvable (name : String)
  /-- A property of a primitive value was asked for. -/
  | toObject
  /-- A variable was asked for. -/
  | environment
  | violation (broken : Violation)
  /-- The consumer of the steps refused one. -/
  | refused (refusal : Refusal)
  deriving DecidableEq

def Failure.message : Failure → String
  | .unsupportedNode type => "unsupported node kind: " ++ type
  | .unsupportedOperator operator => "unsupported binary operator: " ++ operator.token
  | .unsupportedLiteral typeName => "unsupported literal type: " ++ typeName
  | .objects => "objects are not supported"
  | .symbolToNumber => "type error: Cannot convert a Symbol value to a number"
  | .symbolToString => "type error: Cannot convert a Symbol value to a string"
  | .unresolvable name => "reference error: " ++ name ++ " is not defined"
  | .toObject => "unimplemented: ToObject"
  | .environment => "unimplemented: environment records"
  | .violation broken => "invariant violation: " ++ broken.message
  | .refused refusal => "visualizer failed: " ++ refusal.message

end Redex
