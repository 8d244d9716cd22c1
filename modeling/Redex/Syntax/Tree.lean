import Redex.Number.Binary64
import Redex.Syntax.Kind
import Redex.Syntax.Operator
import Redex.Text.Span

/-! Syntax trees. Every node has the span of its text in the source. Programs,
expression statements, binary expressions and literals have parts; a node of any
other kind is a leaf. -/
namespace Redex

inductive Literal where
  | null
  | boolean (value : Bool)
  | number (value : Binary64)
  | string (value : String)
  | regExp (pattern flags : String)
  | bigInt (digits : String)
  deriving DecidableEq

def Literal.typeName : Literal → String
  | .null => "null"
  | .boolean _ => "boolean"
  | .number _ => "number"
  | .string _ => "string"
  | .regExp _ _ => "regexp"
  | .bigInt _ => "bigint"

inductive Tree where
  | program (span : Span) (body : List Tree)
  | expressionStatement (span : Span) (expression : Tree)
  | binary (span : Span) (operator : Operator) (left right : Tree)
  | literal (span : Span) (value : Literal) (raw : Option String)
  | leaf (span : Span) (kind : Kind)

namespace Tree

def span : Tree → Span
  | .program span _ => span
  | .expressionStatement span _ => span
  | .binary span _ _ _ => span
  | .literal span _ _ => span
  | .leaf span _ => span

/-- The node type. -/
def kind : Tree → String
  | .program _ _ => "Program"
  | .expressionStatement _ _ => "ExpressionStatement"
  | .binary _ _ _ _ => "BinaryExpression"
  | .literal _ _ _ => "Literal"
  | .leaf _ kind => kind.name

end Tree
end Redex
