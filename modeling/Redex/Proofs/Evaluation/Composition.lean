import Redex.Proofs.Evaluation.Delivery
import Redex.Proofs.Evaluation.Statements

/-! Programs one after another. A program carries nothing from one of its statements
to the next but the state of the consumer, so it can be split between any two of
them: what the first part leaves behind is all that the second has to go on. If the
first part fails, so does the whole, and the second is not evaluated. -/
namespace Redex

variable {σ : Type}

/-- What goes its way through a tree comes to something that holds, or it fails. -/
theorem Follows.outcome_cases {α : Type} {run : (σ : Type) → Consumer σ → Evaluation σ α}
    {visits : List Visit} {holds : α → Prop} (follows : Follows run visits holds)
    (consumer : Consumer σ) (state : σ) :
    (∃ a left, holds a ∧ outcome (run σ consumer) state = (.ok a, left)) ∨
      ∃ failure left, outcome (run σ consumer) state = (.error (.failure failure), left) := by
  cases follows with
  | finished clean issue value plays =>
    rw [plays σ consumer, Script.outcome_play]
    split
    · exact .inl ⟨_, _, value, rfl⟩
    · exact .inr ⟨_, _, rfl⟩
  | stopped split clean offends issue plays =>
    rw [plays σ consumer, Script.outcome_play]
    split <;> exact .inr ⟨_, _, rfl⟩

namespace Evaluation

variable {consumer : Consumer σ} {state left : σ} {statement : Tree} {stop : Abrupt}

/-- No tree stops a run but by failing: what it evaluates to is a value. -/
theorem Stops.exists_failure (stops : Stops (node consumer) state statement left stop) :
    ∃ failure, stop = .failure failure := by
  obtain ⟨spec, next, ⟨v, -, -, hands⟩, done⟩ | ⟨failure, next, failed⟩ :=
    (node_follows statement).outcome_cases consumer state
  · cases stops with
    | failed failed =>
      rw [done] at failed
      cases failed
    | halted done' halts =>
      rw [done] at done'
      cases done'
      have value := hands.getValue
      rw [halts.getValue] at value
      contradiction
  · cases stops with
    | failed failed' =>
      rw [failed] at failed'
      cases failed'
      exact ⟨failure, rfl⟩
    | halted done halts =>
      rw [failed] at done
      cases done

end Evaluation

namespace Tree

open Evaluation (Runs Stops node runStatements)

variable {consumer : Consumer σ} {state mid left : σ} {body before : List Tree}
  {values : List (Spanned Value)} {statement : Tree}

theorem outcome_program (span : Span) (body : List Tree) :
    outcome (node consumer (.program span body)) state =
      outcome (runStatements (node consumer) none body) state := by
  rw [node, Evaluation.statements_eq_runStatements]

theorem evaluate_program_of_runs (runs : Runs (node consumer) state body values mid)
    (span : Span) :
    ((program span body).evaluate consumer).run state =
      (.ok (.normal (values.getLast?.getD ⟨.undefined, none⟩)), mid) := by
  apply evaluate_of_completion
  rw [outcome_program, runs.outcome]

theorem evaluate_program_of_stops {failure : Failure}
    (runs : Runs (node consumer) state before values mid)
    (stops : Stops (node consumer) mid statement left (.failure failure)) (rest : List Tree)
    (span : Span) :
    ((program span (before ++ statement :: rest)).evaluate consumer).run state =
      (.error failure, left) := by
  have stopped : outcome (node consumer (program span (before ++ statement :: rest))) state =
      (.error (.failure failure), left) := by
    rw [outcome_program, runs.outcome_append]
    exact stops.outcome rest _
  rw [evaluate_eq_outcome, complete, outcome_bind_of_error stopped]
  rfl

theorem evaluate_congr {tree other : Tree} {state' : σ}
    (same : outcome (node consumer tree) state = outcome (node consumer other) state') :
    (tree.evaluate consumer).run state = (other.evaluate consumer).run state' := by
  rw [evaluate_eq_outcome, evaluate_eq_outcome, complete, complete, outcome_bind, outcome_bind,
    same]

/-- A program that is split in two. The second part is evaluated on what the first leaves behind,
unless that fails or there is nothing in the second. -/
theorem evaluate_append (whole first second : Span) (xs ys : List Tree) (consumer : Consumer σ)
    (state : σ) :
    ((program whole (xs ++ ys)).evaluate consumer).run state =
      match ((program first xs).evaluate consumer).run state with
      | (.ok c, left) =>
        if ys.isEmpty then (.ok c, left) else ((program second ys).evaluate consumer).run left
      | (.error failure, left) => (.error failure, left) := by
  obtain ⟨values, mid, runs⟩ | ⟨before, statement, after, values, mid, left, stop, rfl, runs,
    stops⟩ := Evaluation.runs_or_stops (node consumer) state xs
  · rw [evaluate_program_of_runs runs first]
    cases ys with
    | nil =>
      rw [List.append_nil, evaluate_program_of_runs runs whole]
      rfl
    | cons statement rest =>
      apply evaluate_congr
      -- The value before the second part does not matter, as that has a value of its own.
      rw [outcome_program, outcome_program, runs.outcome_append, runStatements, runStatements]
  · obtain ⟨failure, rfl⟩ := stops.exists_failure
    rw [evaluate_program_of_stops runs stops after first, List.append_assoc, List.cons_append,
      evaluate_program_of_stops runs stops (after ++ ys) whole]

/-- What an evaluation comes to, with all that it issues on the way and the state that the consumer
is left in. -/
def issues (tree : Tree) (consumer : Consumer σ) (state : σ) :
    Except Failure Completion × List Reduction × σ :=
  (tree.evaluate consumer.observed).run ([], state)

/-- Noting what is issued goes on from what was noted before. -/
theorem evaluate_observed (tree : Tree) (consumer : Consumer σ) (seen : List Reduction)
    (state : σ) :
    (tree.evaluate consumer.observed).run (seen, state) =
      match tree.issues consumer state with
      | (result, issued, left) => (result, seen ++ issued, left) := by
  obtain ⟨last, accepted⟩ | ⟨before, reduction, rest, mid, refusal, left, split, accepted,
    refused⟩ := consumer.accepts_or_refuses state (tree.record.2.map (·.reduction))
  · rw [issues, evaluate_of_accepts (accepted.observed seen),
      evaluate_of_accepts (accepted.observed []), List.nil_append]
  · have noted (seen : List Reduction) : outcome (consumer.observed reduction) (seen, mid) =
        (.error refusal, seen ++ [reduction], left) := by
      rw [Consumer.outcome_observed, refused]
    rw [issues, evaluate_of_refused split (accepted.observed seen) (noted _),
      evaluate_of_refused split (accepted.observed []) (noted _), List.nil_append,
      List.append_assoc]

theorem issues_append (whole first second : Span) (xs ys : List Tree) (consumer : Consumer σ)
    (state : σ) :
    (program whole (xs ++ ys)).issues consumer state =
      match (program first xs).issues consumer state with
      | (.ok c, issued, left) =>
        if ys.isEmpty then (.ok c, issued, left)
        else match (program second ys).issues consumer left with
          | (result, more, last) => (result, issued ++ more, last)
      | (.error failure, issued, left) => (.error failure, issued, left) := by
  rw [issues, evaluate_append whole first second, ← issues]
  rcases (program first xs).issues consumer state with ⟨_ | c, issued, left⟩
  · rfl
  · simp only [evaluate_observed]

/-- Evaluates programs in turn, each on what the one before left behind, until one fails. The result
is that of the last program, and `result` where there is none. -/
def evaluateInTurn (consumer : Consumer σ) (result : Completion) :
    List Tree → StateM σ (Except Failure Completion)
  | [] => return .ok result
  | tree :: rest => do
    match ← tree.evaluate consumer with
    | .ok c => evaluateInTurn consumer c rest
    | .error failure => return .error failure

theorem evaluateInTurn_cons (tree : Tree) (rest : List Tree) (result : Completion)
    (consumer : Consumer σ) (state : σ) :
    (evaluateInTurn consumer result (tree :: rest)).run state =
      match (tree.evaluate consumer).run state with
      | (.ok c, left) => (evaluateInTurn consumer c rest).run left
      | (.error failure, left) => (.error failure, left) := by
  rw [evaluateInTurn, StateT.run_bind]
  cases (tree.evaluate consumer).run state with
  | mk result left => cases result <;> rfl

/-- Programs of one statement each, in turn. -/
theorem evaluateInTurn_pieces (whole : Span) (pieces : List (Span × Tree)) (result : Completion)
    (consumer : Consumer σ) (state : σ) :
    (evaluateInTurn consumer result
        (pieces.map fun piece => .program piece.1 [piece.2])).run state =
      if pieces.isEmpty then (.ok result, state)
      else ((program whole (pieces.map (·.2))).evaluate consumer).run state := by
  induction pieces generalizing result state with
  | nil => rfl
  | cons piece rest ih =>
    have split := evaluate_append whole piece.1 whole [piece.2] (rest.map (·.2)) consumer state
    rw [List.map_cons, evaluateInTurn_cons, List.isEmpty_cons, List.map_cons,
      if_neg Bool.false_ne_true]
    rw [List.singleton_append, List.isEmpty_map] at split
    rw [split]
    split
    · exact ih _ _
    · rfl

/-- A program of two lists of statements does what the program of the first and then, unless that
failed, the program of the second does, on the same consumer: the steps that are issued are those
of the one followed by those of the other, the consumer is left in the same state, and the result
is the failure of the first, or that of the second, or of the first if there is nothing in the
second. So a session ends as it does when each statement is a program of its own. -/
theorem program_evaluates_in_parts (whole first second : Span) :
    (∀ {σ : Type} (consumer : Consumer σ) (state : σ) (xs ys : List Tree),
      ((program whole (xs ++ ys)).evaluate consumer).run state =
        (match ((program first xs).evaluate consumer).run state with
        | (.ok c, left) =>
          if ys.isEmpty then (.ok c, left) else ((program second ys).evaluate consumer).run left
        | (.error failure, left) => (.error failure, left)) ∧
      (program whole (xs ++ ys)).issues consumer state =
        match (program first xs).issues consumer state with
        | (.ok c, issued, left) =>
          if ys.isEmpty then (.ok c, issued, left)
          else match (program second ys).issues consumer left with
            | (result, more, last) => (result, issued ++ more, last)
        | (.error failure, issued, left) => (.error failure, issued, left)) ∧
    ∀ (pieces : List (Span × Tree)) (session : Session),
      (Session.evaluate (.program whole (pieces.map (·.2)))).run session =
        (evaluateInTurn Session.consumer (.normal ⟨.undefined, none⟩)
          (pieces.map fun piece => .program piece.1 [piece.2])).run session := by
  constructor
  · intro σ consumer state xs ys
    exact ⟨evaluate_append whole first second xs ys consumer state,
      issues_append whole first second xs ys consumer state⟩
  · intro pieces session
    rw [evaluateInTurn_pieces whole]
    cases pieces with
    | nil => rfl
    | cons piece rest => rfl

end Tree
end Redex
