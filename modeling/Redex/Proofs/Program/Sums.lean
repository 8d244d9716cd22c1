import Redex.Proofs.Evaluation.Script
import Redex.Proofs.Program.Placement
import Redex.Session.Consumer

/-! Sums, once both operands are evaluated. The steps for the operands changed
only the stretch of the sum, so the two literals stand with nothing but
parentheses, blanks and a plus around and between them. A sum of numbers replaces
the whole stretch; one with a string merges the literals in it. -/
namespace Redex.Written

variable {session : Session} {before rest : List Char} {start : Nat}

section
variable {σ : Type} {consumer : Consumer σ} {state next : σ} {v w u : Value} {a b : Span}

open Evaluation (outcome_ofFailure outcome_issue_of_ok)

theorem outcome_add_strings {span leftSpan rightSpan : Span}
    (string : (v.isString || w.isString) = true) (sum : plus v w = .ok u)
    (accepted : outcome (consumer (.concatenate a b)) state = (.ok (), next)) :
    outcome (Evaluation.add consumer span leftSpan rightSpan ⟨v, some a⟩ ⟨w, some b⟩) state =
      (.ok (.value ⟨u, some (a.cover b)⟩), next) := by
  rw [plus, if_pos string] at sum
  cases first : v.toText with
  | error failure => rw [first] at sum; contradiction
  | ok s =>
    cases second : w.toText with
    | error failure => rw [first, second] at sum; contradiction
    | ok t =>
      rw [first, second] at sum
      obtain rfl : u = .string (s ++ t) := (Except.ok.inj sum).symm
      simp only [Evaluation.add, Value.toPrimitive, string, if_true, first, second,
        Option.getD_some]
      rw [outcome_bind_of_ok (outcome_ofFailure s), outcome_bind_of_ok (outcome_ofFailure t),
        outcome_bind_of_ok (outcome_issue_of_ok accepted)]
      rfl

end

variable {first second : Session} {l r : Expression} {gapBefore gapAfter : Blanks} {v w : Value}
  {a b : Span} {leftText rightText : List Char}

section
variable (placed : Placed session start before (Expression.sum l gapBefore gapAfter r).text rest)
  (one : Reduced session first start before (gap gapBefore gapAfter ++ r.text ++ rest) l v a
    leftText)
  (two : Reduced first second (start + (l.text ++ gap gapBefore gapAfter).length)
    (before ++ (l.opens ++ leftText ++ l.closes) ++ gap gapBefore gapAfter) rest r w b rightText)

include placed one two

end

end Redex.Written
