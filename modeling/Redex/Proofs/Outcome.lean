import Redex.Evaluation.Step

/-! Computations that may stop early and keep their state when they do. The
actions of a session and the evaluation of trees are both of this kind. An
outcome is what such a computation comes to together with the state it leaves;
one equation for each way to build a computation makes it unnecessary to open
the transformers again. -/
namespace Redex

variable {ε σ α β : Type}

def outcome (computation : ExceptT ε (StateM σ) α) (state : σ) : Except ε α × σ :=
  computation.run.run state

@[simp] theorem outcome_get (state : σ) :
    outcome (get : ExceptT ε (StateM σ) σ) state = (.ok state, state) := rfl

theorem outcome_eq_of_ok {computation : ExceptT ε (StateM σ) α} {state : σ} {a : α}
    (ran : (outcome computation state).1 = .ok a) :
    outcome computation state = (.ok a, (outcome computation state).2) :=
  Prod.ext ran rfl

/-- What stops the first part stops the whole; the state stays as it was then. -/
theorem outcome_bind (first : ExceptT ε (StateM σ) α) (next : α → ExceptT ε (StateM σ) β)
    (state : σ) :
    outcome (first >>= next) state =
      match outcome first state with
      | (.ok a, left) => outcome (next a) left
      | (.error e, left) => (.error e, left) := by
  simp only [outcome, ExceptT.run_bind, StateT.run_bind]
  cases h : StateT.run first.run state with
  | mk result left => cases result <;> rfl

theorem outcome_bind_of_ok {first : ExceptT ε (StateM σ) α} {state left : σ} {a : α}
    (ran : outcome first state = (.ok a, left)) (next : α → ExceptT ε (StateM σ) β) :
    outcome (first >>= next) state = outcome (next a) left := by
  rw [outcome_bind, ran]

theorem outcome_bind_of_error {first : ExceptT ε (StateM σ) α} {state left : σ} {e : ε}
    (stopped : outcome first state = (.error e, left)) (next : α → ExceptT ε (StateM σ) β) :
    outcome (first >>= next) state = (.error e, left) := by
  rw [outcome_bind, stopped]

/-- Where the whole comes to a value, so does either part. -/
theorem outcome_bind_eq_ok {first : ExceptT ε (StateM σ) α} {next : α → ExceptT ε (StateM σ) β}
    {state left : σ} {b : β} (ran : outcome (first >>= next) state = (.ok b, left)) :
    ∃ a mid, outcome first state = (.ok a, mid) ∧ outcome (next a) mid = (.ok b, left) := by
  rw [outcome_bind] at ran
  cases h : outcome first state with
  | mk result mid =>
    rw [h] at ran
    cases result with
    | ok a => exact ⟨a, mid, rfl, ran⟩
    | error e => exact absurd (congrArg Prod.fst ran) (by simp)

end Redex
