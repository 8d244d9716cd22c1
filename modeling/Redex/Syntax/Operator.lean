/-! The binary operators of ECMAScript expressions and their tokens. -/
namespace Redex

inductive Operator where
  | equality
  | inequality
  | strictEquality
  | strictInequality
  | lessThan
  | lessThanOrEqual
  | greaterThan
  | greaterThanOrEqual
  | leftShift
  | rightShift
  | unsignedRightShift
  | addition
  | subtraction
  | multiplication
  | division
  | remainder
  | exponentiation
  | bitwiseOr
  | bitwiseXor
  | bitwiseAnd
  | membership
  | instanceOf
  deriving DecidableEq, Repr

namespace Operator

def token : Operator → String
  | equality => "=="
  | inequality => "!="
  | strictEquality => "==="
  | strictInequality => "!=="
  | lessThan => "<"
  | lessThanOrEqual => "<="
  | greaterThan => ">"
  | greaterThanOrEqual => ">="
  | leftShift => "<<"
  | rightShift => ">>"
  | unsignedRightShift => ">>>"
  | addition => "+"
  | subtraction => "-"
  | multiplication => "*"
  | division => "/"
  | remainder => "%"
  | exponentiation => "**"
  | bitwiseOr => "|"
  | bitwiseXor => "^"
  | bitwiseAnd => "&"
  | membership => "in"
  | instanceOf => "instanceof"

def all : List Operator :=
  [equality, inequality, strictEquality, strictInequality, lessThan, lessThanOrEqual,
    greaterThan, greaterThanOrEqual, leftShift, rightShift, unsignedRightShift, addition,
    subtraction, multiplication, division, remainder, exponentiation, bitwiseOr, bitwiseXor,
    bitwiseAnd, membership, instanceOf]

def ofToken? (token : String) : Option Operator := all.find? (·.token = token)

theorem mem_all (operator : Operator) : operator ∈ all := by
  cases operator <;> decide

theorem ofToken?_token (operator : Operator) : ofToken? operator.token = some operator := by
  cases operator <;> decide

theorem token_of_ofToken? {token : String} {operator : Operator}
    (read : ofToken? token = some operator) : operator.token = token := by
  simpa using List.find?_some read

end Operator
end Redex
