import Redex.Evaluation.Refusal
import Redex.Text.Span

/-! The steps of an evaluation and who consumes them. A step is a reduction with
its number within the evaluation; its spans are offsets into the source. -/
namespace Redex

inductive Reduction where
  /-- The text of `range` becomes `text`. -/
  | replace (range : Span) (text : String)
  /-- The string operands at `left` and `right` become one string. -/
  | concatenate (left right : Span)
  deriving DecidableEq, Repr

structure Step where
  index : Nat
  reduction : Reduction
  deriving DecidableEq, Repr

/-- Takes reductions one at a time, changing its state; the evaluation goes on
only when one is accepted. A refused reduction may have changed the state too. -/
abbrev Consumer (σ : Type) := Reduction → ExceptT Refusal (StateM σ) Unit

/-- Accepts every reduction and writes it down as the next step. -/
def Consumer.recorder : Consumer (List Step) := fun reduction =>
  modify fun steps => steps ++ [⟨steps.length, reduction⟩]

/-- Records like `recorder` up to a step that it refuses. -/
def Consumer.recorderUntil (index : Nat) (refusal : Refusal) : Consumer (List Step) :=
  fun reduction => do
    if (← get).length = index then throw refusal else recorder reduction

end Redex
