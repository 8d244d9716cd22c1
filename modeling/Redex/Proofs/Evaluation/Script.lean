import Redex.Evaluation.Evaluator
import Redex.Proofs.Outcome

/-! What an evaluation issues does not depend on who consumes it. A script is a
list of reductions with the result they lead to; playing it hands them to a
consumer until one is refused. Computations that play a script can be put one
after another, and then they play both. -/
namespace Redex

variable {σ α β : Type}

/-- The reductions of an evaluation and what it comes to when none is refused. -/
structure Script (α : Type) where
  issued : List Reduction
  result : Except Abrupt α

namespace Script

/-- Issues the reductions in order; the result stands if all are accepted. -/
def play (script : Script α) (consumer : Consumer σ) : Evaluation σ α := do
  forM script.issued (Evaluation.issue consumer)
  Evaluation.ofExcept script.result

theorem ofExcept_bind_ok (a : α) (next : α → Evaluation σ β) :
    Evaluation.ofExcept (.ok a) >>= next = next a := rfl

theorem ofExcept_bind_error (stop : Abrupt) (next : α → Evaluation σ β) :
    Evaluation.ofExcept (.error stop) >>= next = Evaluation.ofExcept (.error stop) := rfl

end Script

/-- The computation plays this script to every consumer. -/
def Plays (run : (σ : Type) → Consumer σ → Evaluation σ α) (script : Script α) : Prop :=
  ∀ σ consumer, run σ consumer = script.play consumer

namespace Plays

variable {run : (σ : Type) → Consumer σ → Evaluation σ α}
  {next : α → (σ : Type) → Consumer σ → Evaluation σ β} {issued more : List Reduction}
  {result : Except Abrupt β} {a : α}

theorem ofExcept (result : Except Abrupt α) :
    Plays (fun _ _ => Evaluation.ofExcept result) ⟨[], result⟩ := fun _ _ => rfl

theorem pure (a : α) : Plays (fun σ _ => (Pure.pure a : Evaluation σ α)) ⟨[], .ok a⟩ :=
  ofExcept (.ok a)

theorem issue (reduction : Reduction) :
    Plays (fun _ consumer => Evaluation.issue consumer reduction) ⟨[reduction], .ok ()⟩ := by
  intro σ consumer
  show _ = (do Evaluation.issue consumer reduction; Pure.pure ()) >>= fun _ => Pure.pure ()
  simp only [bind_pure_unit]

theorem bind (first : Plays run ⟨issued, .ok a⟩) (second : Plays (next a) ⟨more, result⟩) :
    Plays (fun σ consumer => run σ consumer >>= fun a => next a σ consumer)
      ⟨issued ++ more, result⟩ := by
  intro σ consumer
  simp only [first σ consumer, Script.play, bind_assoc, Script.ofExcept_bind_ok,
    second σ consumer, List.forM_append]

theorem bind_error {stop : Abrupt} (first : Plays run ⟨issued, .error stop⟩) :
    Plays (fun σ consumer => run σ consumer >>= fun a => next a σ consumer)
      ⟨issued, .error stop⟩ := by
  intro σ consumer
  simp only [first σ consumer, Script.play, bind_assoc, Script.ofExcept_bind_error]

end Plays

namespace Evaluation

variable {consumer : Consumer σ} {state next : σ}

theorem outcome_issue (consumer : Consumer σ) (reduction : Reduction) (state : σ) :
    outcome (issue consumer reduction) state =
      ((outcome (consumer reduction) state).1.mapError (fun refusal =>
        .failure (.refused refusal)), (outcome (consumer reduction) state).2) := rfl

theorem outcome_issue_of_ok {reduction : Reduction}
    (accepted : outcome (consumer reduction) state = (.ok (), next)) :
    outcome (issue consumer reduction) state = (.ok (), next) := by
  rw [outcome_issue, accepted]
  rfl

theorem outcome_ofFailure (a : α) : outcome (ofFailure (.ok a)) state = (.ok a, state) := rfl

end Evaluation

namespace Tree

/-- An evaluation up to its completion, which may still be abrupt. -/
def complete (tree : Tree) (consumer : Consumer σ) : Evaluation σ Completion := do
  match ← Evaluation.node consumer tree with
  | .completion c => return c
  | value => return .normal (← Evaluation.ofExcept value.getValue)

/-- What an evaluation up to its completion settles on: a completion that breaks it off is
its completion. -/
def settled : Except Abrupt Completion → Except Failure Completion
  | .ok c => .ok c
  | .error (.completion c) => .ok c
  | .error (.failure failure) => .error failure

theorem evaluate_eq_outcome (tree : Tree) (consumer : Consumer σ) (state : σ) :
    (tree.evaluate consumer).run state =
      (settled (outcome (tree.complete consumer) state).1,
        (outcome (tree.complete consumer) state).2) := by
  show StateT.run ((tree.complete consumer).run >>= _) state = _
  rw [StateT.run_bind, ← outcome]
  cases outcome (tree.complete consumer) state with
  | mk result left =>
    cases result with
    | ok c => rfl
    | error stop => cases stop <;> rfl

theorem evaluate_of_completion {tree : Tree} {consumer : Consumer σ} {state next : σ}
    {c : Completion}
    (ran : outcome (Evaluation.node consumer tree) state = (.ok (.completion c), next)) :
    (tree.evaluate consumer).run state = (.ok c, next) := by
  rw [evaluate_eq_outcome, complete, outcome_bind_of_ok ran]
  rfl

end Tree
end Redex
