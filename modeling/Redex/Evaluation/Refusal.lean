import Redex.Text.LiveText

/-! Why a consumer of evaluation steps turns one down. -/
namespace Redex

inductive Refusal where
  /-- Whoever was to acknowledge the step is gone. -/
  | disconnected
  /-- The step touches more than one line where only single-line edits are allowed. -/
  | spansLines (first last : Nat)
  /-- The live text cannot be edited that way. -/
  | edit (error : LiveText.Error)
  deriving DecidableEq, Repr

def Refusal.message : Refusal → String
  | .disconnected => "visualizer disconnected"
  | .spansLines first last =>
    s!"range spans lines {first} to {last}; only single-line edits are supported"
  | .edit error => error.message

end Redex
