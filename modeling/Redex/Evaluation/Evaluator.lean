import Redex.Evaluation.Step
import Redex.Language.Coercion
import Redex.Language.SpecValue
import Redex.Syntax.Tree

/-! Evaluation of trees. Operands are evaluated from left to right, and each
addition issues one reduction to the consumer of the steps before its value is
used. A refusal ends the evaluation. -/
namespace Redex

variable {σ α : Type}

/-- A computation that issues reductions to a consumer with state `σ`. -/
abbrev Evaluation (σ α : Type) := ExceptT Abrupt (StateM σ) α

namespace Evaluation

/-- A result that needs no consumer. -/
def ofExcept (result : Except Abrupt α) : Evaluation σ α := ExceptT.mk (pure result)

def ofFailure (result : Except Failure α) : Evaluation σ α :=
  ofExcept (result.mapError .failure)

def fail (failure : Failure) : Evaluation σ α := throw (.failure failure)

/-- Hands a reduction to the consumer. -/
def issue (consumer : Consumer σ) (reduction : Reduction) : Evaluation σ Unit :=
  (consumer reduction).adapt fun refusal => .failure (.refused refusal)

/-- The sum of two values for the node at `span`, with operand nodes at
`leftSpan` and `rightSpan`. If either is a string both are joined as strings,
and the result spans both values; else they are added as numbers. -/
def add (consumer : Consumer σ) (span leftSpan rightSpan : Span) (left right : Spanned Value) :
    Evaluation σ SpecValue := do
  let left := Value.toPrimitive left
  let right := Value.toPrimitive right
  if left.value.isString || right.value.isString then
    let leftText ← ofFailure left.value.toText
    let rightText ← ofFailure right.value.toText
    let leftSpan := left.span.getD leftSpan
    let rightSpan := right.span.getD rightSpan
    issue consumer (.concatenate leftSpan rightSpan)
    return .value ⟨.string (leftText ++ rightText), some (leftSpan.cover rightSpan)⟩
  else
    let leftNumber ← ofFailure left.value.toNumber
    let rightNumber ← ofFailure right.value.toNumber
    let sum := leftNumber.add rightNumber
    issue consumer (.replace span sum.toText)
    return .value ⟨.number sum, some span⟩

/-- The value of a literal. -/
def literal (span : Span) : Literal → Evaluation σ SpecValue
  | .null => return .value ⟨.null, some span⟩
  | .boolean b => return .value ⟨.boolean b, some span⟩
  | .number x => return .value ⟨.number x, some span⟩
  | .string s => return .value ⟨.string s, some span⟩
  | value => fail (.unsupportedLiteral value.typeName)

/-- Runs statements in order, each result going through GetValue. The first that
stops the evaluation is the result; else it is the last value, or undefined
where there are no statements. -/
def runStatements (run : α → Evaluation σ SpecValue) (last : Option (Spanned Value)) :
    List α → Evaluation σ SpecValue
  | [] => return .completion (.normal (last.getD ⟨.undefined, none⟩))
  | statement :: rest => do
    let value ← ofExcept (← run statement).getValue
    runStatements run (some value) rest

mutual

/-- Evaluates a node. -/
def node (consumer : Consumer σ) : Tree → Evaluation σ SpecValue
  | .program _ body => statements consumer none body
  | .expressionStatement _ expression => do
    let value ← ofExcept (← node consumer expression).getValue
    return .completion (.normal value)
  | .binary span operator left right => do
    if operator = .addition then
      let leftValue ← ofExcept (← node consumer left).getValue
      let rightValue ← ofExcept (← node consumer right).getValue
      add consumer span left.span right.span leftValue rightValue
    else fail (.unsupportedOperator operator)
  | .literal span value _ => literal span value
  | .leaf _ kind => fail (.unsupportedNode kind.name)

/-- `runStatements` on the statements of a program. -/
def statements (consumer : Consumer σ) (last : Option (Spanned Value)) :
    List Tree → Evaluation σ SpecValue
  | [] => return .completion (.normal (last.getD ⟨.undefined, none⟩))
  | statement :: rest => do
    let value ← ofExcept (← node consumer statement).getValue
    statements consumer (some value) rest

end

theorem statements_eq_runStatements (consumer : Consumer σ) (last : Option (Spanned Value))
    (body : List Tree) : statements consumer last body = runStatements (node consumer) last body := by
  induction body generalizing last with
  | nil => rw [statements, runStatements]
  | cons statement rest ih => simp only [statements, runStatements, ih]

end Evaluation

/-- Evaluates a tree against a consumer of its steps. An abrupt completion is a
result like any other. -/
def Tree.evaluate (tree : Tree) (consumer : Consumer σ) : StateM σ (Except Failure Completion) := do
  let run : Evaluation σ Completion := do
    match ← Evaluation.node consumer tree with
    | .completion c => return c
    | value => return .normal (← Evaluation.ofExcept value.getValue)
  match ← run.run with
  | .ok c => return .ok c
  | .error (.completion c) => return .ok c
  | .error (.failure failure) => return .error failure

/-- The steps of a tree and the result, nothing being refused. -/
def Tree.record (tree : Tree) : Except Failure Completion × List Step :=
  (tree.evaluate Consumer.recorder).run []

end Redex
