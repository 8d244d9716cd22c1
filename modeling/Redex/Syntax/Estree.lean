import Redex.Json.Fields
import Redex.Json.Printer
import Redex.Syntax.Operator.Json
import Redex.Syntax.Tree

/-! Decoding a tree from an ESTree document. A node is an object with a string
`type`; its span is `start` and `end` if both are given, else `range`. Only the
members that a node of its type needs are looked at, in alphabetical order, and
the first failure is the result. -/
namespace Redex.Estree

inductive Error where
  /-- The document is no JSON, or a member does not hold what it should. -/
  | malformed
  | noType
  | noSpan (type : String)
  /-- A literal whose value is an array or object. -/
  | literalValue (value : Json)

/-- The text of an error that has one. -/
def Error.message? : Error → Option String
  | .malformed => none
  | .noType => some "node has no string type"
  | .noSpan type => some (type ++ " node has neither start/end nor range")
  | .literalValue value => some ("unrecognized literal value " ++ value.toText)

def orMalformed {α : Type} : Option α → Except Error α
  | none => .error .malformed
  | some x => .ok x

/-- The type and the span of a node. -/
def head (members : Json.Members) : Except Error (String × Span) := do
  let start ← orMalformed (Json.optional? Json.index? (Json.last? "start" members))
  let stop ← orMalformed (Json.optional? Json.index? (Json.last? "end" members))
  let range ← orMalformed (Json.optional? Json.span? (Json.last? "range" members))
  match Json.last? "type" members with
  | some (.string type) =>
    match start, stop, range with
    | some start, some stop, _ => return (type, ⟨start, stop⟩)
    | _, _, some range => return (type, range)
    | _, _, none => throw (.noSpan type)
  | _ => throw .noType

/-- An operator. Where it is the one key of an object, the key may be repeated and
its value may be an empty object. -/
def operator? : Json → Option Operator
  | .object members =>
    match Json.sortMembers members with
    | [(token, .object [])] => Operator.ofToken? token
    | members => Operator.ofJson? (.object members)
  | value => Operator.ofJson? value

/-- The pattern and flags of a regular expression, by key or in order. -/
def regExp? : Json → Option Literal
  | .object members => do
    let flags ← (Json.last? "flags" members).bind Json.text?
    let pattern ← (Json.last? "pattern" members).bind Json.text?
    return .regExp pattern flags
  | .array [pattern, flags] => do return .regExp (← pattern.text?) (← flags.text?)
  | _ => none

/-- The value of a literal that is neither a regular expression nor a big integer. -/
def plainValue : Json → Except Error Literal
  | .null => .ok .null
  | .boolean b => .ok (.boolean b)
  | .string s => .ok (.string s)
  | .integer n => (orMalformed (Json.integer n).number64?).map .number
  | .float x => .ok (.number x)
  | .array items => .error (.literalValue (.array items))
  | .object members => .error (.literalValue (.object members))

/-- A literal. Regular expressions and big integers have no JSON value and are
told by members of their own. -/
def literal (span : Span) (members : Json.Members) : Except Error Tree := do
  let bigInt ← orMalformed (Json.optional? Json.text? (Json.last? "bigint" members))
  let raw ← orMalformed (Json.optional? Json.text? (Json.last? "raw" members))
  let regExp ← orMalformed (Json.optional? regExp? (Json.last? "regex" members))
  let value ← match regExp, bigInt with
    | some value, _ => pure value
    | none, some digits => pure (.bigInt digits)
    | none, none => plainValue ((Json.last? "value" members).getD .null)
  return .literal span value raw

mutual

/-- The tree of a node. -/
def decode : Json → Except Error Tree
  | .object members => do
    let (type, span) ← head members
    if type = "Program" then
      match _found : Json.last? "body" members with
      | some (.array items) => return .program span (← decodeAll items)
      | _ => throw .malformed
    else if type = "ExpressionStatement" then
      match _found : Json.last? "expression" members with
      | some value => return .expressionStatement span (← decode value)
      | none => throw .malformed
    else if type = "BinaryExpression" then
      let left ← match _found : Json.last? "left" members with
        | some value => some <$> decode value
        | none => pure none
      let operator ← match Json.last? "operator" members with
        | some value => some <$> orMalformed (operator? value)
        | none => pure none
      let right ← match _found : Json.last? "right" members with
        | some value => some <$> decode value
        | none => pure none
      match left, operator, right with
      | some left, some operator, some right => return .binary span operator left right
      | _, _, _ => throw .malformed
    else if type = "Literal" then literal span members
    else return .leaf span (.ofName type)
  | _ => .error .malformed
termination_by value => sizeOf value
decreasing_by
  all_goals
    have := Json.sizeOf_last? _found
    simp only [Json.array.sizeOf_spec, Json.object.sizeOf_spec] at *
    omega

def decodeAll : List Json → Except Error (List Tree)
  | [] => .ok []
  | item :: rest => do
    let tree ← decode item
    return tree :: (← decodeAll rest)
termination_by items => sizeOf items

end

/-- The tree of a document's outermost node. Here, unlike in the nodes below, a
repeated `start`, `end` or `range` is an error. -/
def decodeRoot (value : Json) : Except Error Tree :=
  match value with
  | .object members =>
    if ["start", "end", "range"].any (Json.repeats · members) then .error .malformed
    else decode value
  | _ => .error .malformed

/-- The tree of a document. What follows the node is looked at last. -/
def ofText (text : String) : Except Error Tree := do
  let (value, rest) ← orMalformed (Json.read? text.toList)
  let tree ← decodeRoot value
  if Json.atEnd rest then return tree else throw .malformed

end Redex.Estree
