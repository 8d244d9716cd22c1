import Redex.Proofs.Evaluation.Script

/-! What trees mean. The value of a tree is found from the values of its parts
without regard to the steps, and an addition announces one reduction, which its
operands decide. A tree has no value if part of it is not evaluated. Values of
trees are never symbols, so they all convert to numbers and to text. -/
namespace Redex

namespace Value

def isSymbol : Value → Bool
  | .symbol _ => true
  | _ => false

/-- ToNumber of what is no symbol. -/
def asNumber (v : Value) : Binary64 := v.toNumber.toOption.getD .nan

/-- ToString of what is no symbol. -/
def asText (v : Value) : String := v.toText.toOption.getD ""

theorem toNumber_eq {v : Value} (ordinary : v.isSymbol = false) : v.toNumber = .ok v.asNumber := by
  cases v with
  | symbol => contradiction
  | _ => rfl

theorem toText_eq {v : Value} (ordinary : v.isSymbol = false) : v.toText = .ok v.asText := by
  cases v with
  | symbol => contradiction
  | _ => rfl

theorem eq_string {v : Value} (string : v.isString = true) : v = .string v.asText := by
  cases v with
  | string => rfl
  | _ => contradiction

end Value

/-- The value of a literal; there are no objects, so regular expressions have none, and neither
have big integers. -/
def Literal.value? : Literal → Option Value
  | .null => some .null
  | .boolean b => some (.boolean b)
  | .number x => some (.number x)
  | .string s => some (.string s)
  | .regExp _ _ => none
  | .bigInt _ => none

/-- Two operands that are evaluated, with the spans of their nodes and of the addition. -/
structure Addition where
  span : Span
  leftNode : Span
  rightNode : Span
  left : Spanned Value
  right : Spanned Value

namespace Addition

def joins (a : Addition) : Bool := a.left.value.isString || a.right.value.isString

/-- Where the left operand is; a value that was made up is where its node is. -/
def leftSpan (a : Addition) : Span := a.left.span.getD a.leftNode

def rightSpan (a : Addition) : Span := a.right.span.getD a.rightNode

def number (a : Addition) : Binary64 := a.left.value.asNumber.add a.right.value.asNumber

def value (a : Addition) : Spanned Value :=
  if a.joins then
    ⟨.string (a.left.value.asText ++ a.right.value.asText), some (a.leftSpan.cover a.rightSpan)⟩
  else ⟨.number a.number, some a.span⟩

def reduction (a : Addition) : Reduction :=
  if a.joins then .concatenate a.leftSpan a.rightSpan else .replace a.span a.number.toText

theorem isSymbol_value (a : Addition) : a.value.value.isSymbol = false := by
  unfold value
  split <;> rfl

end Addition

namespace Tree

mutual

/-- What a tree evaluates to. -/
def value? : Tree → Option (Spanned Value)
  | .program _ body => lastValue? ⟨.undefined, none⟩ body
  | .expressionStatement _ expression => value? expression
  | .binary span operator left right =>
    if operator = .addition then do
      let leftValue ← value? left
      let rightValue ← value? right
      return (Addition.mk span left.span right.span leftValue rightValue).value
    else none
  | .literal span x _ => x.value?.map (⟨·, some span⟩)
  | .leaf _ _ => none

/-- The value of the last statement; `last` where there is none. -/
def lastValue? (last : Spanned Value) : List Tree → Option (Spanned Value)
  | [] => some last
  | statement :: rest => do lastValue? (← value? statement) rest

end

def isAddition : Tree → Bool
  | .binary _ .addition _ _ => true
  | _ => false

/-- The addition that a node performs once its operands are evaluated. -/
def addition? : Tree → Option Addition
  | .binary span .addition left right => do
    return ⟨span, left.span, right.span, ← left.value?, ← right.value?⟩
  | _ => none

/-- What the addition at a node announces. -/
def reduction? (node : Tree) : Option Reduction := node.addition?.map (·.reduction)

theorem addition?_of_values {span : Span} {left right : Tree} {v w : Spanned Value}
    (leftValue : left.value? = some v) (rightValue : right.value? = some w) :
    (binary span .addition left right).addition? = some ⟨span, left.span, right.span, v, w⟩ := by
  rw [addition?, leftValue, rightValue]
  rfl

theorem value?_of_values {span : Span} {left right : Tree} {v w : Spanned Value}
    (leftValue : left.value? = some v) (rightValue : right.value? = some w) :
    (binary span .addition left right).value? =
      some (Addition.mk span left.span right.span v w).value := by
  rw [value?, if_pos rfl, leftValue, rightValue]
  rfl

end Tree

namespace Evaluation

theorem add_eq {σ : Type} (consumer : Consumer σ) (a : Addition)
    (left : a.left.value.isSymbol = false) (right : a.right.value.isSymbol = false) :
    add consumer a.span a.leftNode a.rightNode a.left a.right = (do
      issue consumer a.reduction
      return .value a.value) := by
  cases joins : a.joins with
  | true =>
    rw [add, Addition.reduction, Addition.value, if_pos joins, if_pos joins]
    simp only [Value.toPrimitive, show (_ || _) = true from joins, if_true, Value.toText_eq left,
      Value.toText_eq right]
    rfl
  | false =>
    rw [add, Addition.reduction, Addition.value, joins]
    simp only [Value.toPrimitive, show (_ || _) = false from joins, Bool.false_eq_true, if_false,
      Value.toNumber_eq left, Value.toNumber_eq right]
    rfl

theorem add_plays (a : Addition) (left : a.left.value.isSymbol = false)
    (right : a.right.value.isSymbol = false) :
    Plays (fun _ consumer => add consumer a.span a.leftNode a.rightNode a.left a.right)
      ⟨[a.reduction], .ok (.value a.value)⟩ := by
  simp only [Plays, add_eq _ a left right]
  exact (Plays.issue _).bind (Plays.pure _)

end Evaluation
end Redex
