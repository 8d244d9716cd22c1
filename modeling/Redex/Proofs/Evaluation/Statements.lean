import Redex.Evaluation.Evaluator
import Redex.Proofs.Outcome

/-! Running a list of statements, whatever a statement is and whatever running one
can come to. A result stands for a value or it stops the run, and there is one rule
for each kind of result. The statements are run up to the first that fails or whose
result stops the run; what stopped it is what the whole comes to. -/
namespace Redex

namespace SpecValue

/-- The results that stand for a value. -/
inductive Yields : SpecValue → Spanned Value → Prop where
  | value (v : Spanned Value) : Yields (.value v) v
  | normal (v : Value) (target : Option String) (span : Option Span) :
      Yields (.completion ⟨.normal, some v, target, span⟩) ⟨v, span⟩

/-- The results that stand for none, and what each of them stops a run with. A completion that is
abrupt is handed on as it is. -/
inductive Halts : SpecValue → Abrupt → Prop where
  | abrupt {c : Completion} (other : c.type ≠ .normal) : Halts (.completion c) (.completion c)
  | empty (target : Option String) (span : Option Span) :
      Halts (.completion ⟨.normal, none, target, span⟩) (.failure (.violation .emptyNormal))
  | list (items : List SpecValue) : Halts (.list items) (.failure (.violation .listDereferenced))
  | unresolvable (name : PropertyName) (strict : Bool) (span : Option Span) :
      Halts (.reference ⟨.undefined, name, strict, span⟩)
        (.failure (.unresolvable (Reference.nameText ⟨.undefined, name, strict, span⟩)))
  | environment (name : PropertyName) (strict : Bool) (span : Option Span) :
      Halts (.reference ⟨.null, name, strict, span⟩) (.failure .environment)
  | property {r : Reference} (primitive : r.hasPrimitiveBase = true) :
      Halts (.reference r) (.failure .toObject)

variable {spec : SpecValue} {v : Spanned Value} {stop : Abrupt}

theorem Yields.getValue (yields : spec.Yields v) : spec.getValue = .ok v := by
  cases yields <;> rfl

theorem Halts.getValue (halts : spec.Halts stop) : spec.getValue = .error stop := by
  cases halts with
  | abrupt other =>
    have breaks : Completion.isAbrupt _ = true := decide_eq_true other
    rw [SpecValue.getValue, Completion.returnIfAbrupt, if_pos breaks]
  | empty | list | unresolvable | environment => rfl
  | @property r primitive =>
    have resolvable : r.isUnresolvable = false := by
      obtain ⟨base, name, strict, span⟩ := r
      cases base with
      | undefined => contradiction
      | _ => rfl
    simp only [SpecValue.getValue, resolvable, primitive, Bool.false_eq_true, if_false, if_true]

/-- Every result is of one of these kinds. -/
theorem yields_or_halts (spec : SpecValue) : (∃ v, spec.Yields v) ∨ ∃ stop, spec.Halts stop := by
  cases spec with
  | value v => exact .inl ⟨v, .value v⟩
  | list items => exact .inr ⟨_, .list items⟩
  | completion c =>
    by_cases other : c.type = .normal
    · obtain ⟨type, value, target, span⟩ := c
      obtain rfl : type = .normal := other
      cases value with
      | none => exact .inr ⟨_, .empty target span⟩
      | some v => exact .inl ⟨_, .normal v target span⟩
    · exact .inr ⟨_, .abrupt other⟩
  | reference r =>
    obtain ⟨base, name, strict, span⟩ := r
    cases base with
    | undefined => exact .inr ⟨_, .unresolvable name strict span⟩
    | null => exact .inr ⟨_, .environment name strict span⟩
    | boolean | string | symbol | number => exact .inr ⟨_, .property rfl⟩

end SpecValue

namespace Evaluation

variable {σ α : Type}

/-- Running statements one after another takes a state to a last one, and each gives a value. -/
inductive Runs (run : α → Evaluation σ SpecValue) :
    σ → List α → List (Spanned Value) → σ → Prop where
  | nil (state : σ) : Runs run state [] [] state
  | cons {state next last : σ} {statement : α} {rest : List α} {spec : SpecValue}
      {v : Spanned Value} {values : List (Spanned Value)} :
      outcome (run statement) state = (.ok spec, next) → spec.Yields v →
      Runs run next rest values last → Runs run state (statement :: rest) (v :: values) last

/-- Running a statement stops the run: it fails by itself, or its result stands for no value. -/
inductive Stops (run : α → Evaluation σ SpecValue) (state : σ) (statement : α) (left : σ) :
    Abrupt → Prop where
  | failed {stop : Abrupt} : outcome (run statement) state = (.error stop, left) →
      Stops run state statement left stop
  | halted {spec : SpecValue} {stop : Abrupt} :
      outcome (run statement) state = (.ok spec, left) → spec.Halts stop →
      Stops run state statement left stop

/-- The same way to run statements, noting each statement that is run. -/
def noted (run : α → Evaluation σ SpecValue) : α → Evaluation (List α × σ) SpecValue :=
  fun statement => ExceptT.mk fun (ran, state) =>
    let (result, left) := outcome (run statement) state
    (result, ran ++ [statement], left)

variable {run : α → Evaluation σ SpecValue} {state next left last : σ} {body : List α}
  {statement : α} {values : List (Spanned Value)} {stop : Abrupt}

theorem outcome_noted (run : α → Evaluation σ SpecValue) (statement : α) (ran : List α)
    (state : σ) :
    outcome (noted run statement) (ran, state) =
      ((outcome (run statement) state).1, ran ++ [statement],
        (outcome (run statement) state).2) := rfl

theorem Runs.noted (runs : Runs run state body values last) (ran : List α) :
    Runs (noted run) (ran, state) body values (ran ++ body, last) := by
  induction runs generalizing ran with
  | nil => simpa only [List.append_nil] using Runs.nil _
  | @cons state next last statement rest spec v values done yields _ ih =>
    have later := ih (ran ++ [statement])
    rw [List.append_assoc, List.singleton_append] at later
    exact .cons (by rw [outcome_noted, done]) yields later

theorem Stops.noted (stops : Stops run state statement left stop) (ran : List α) :
    Stops (noted run) (ran, state) statement (ran ++ [statement], left) stop := by
  cases stops with
  | failed failed => exact .failed (by rw [outcome_noted, failed])
  | halted done halts => exact .halted (by rw [outcome_noted, done]) halts

/-- There is a first statement that stops the run, or none does. -/
theorem runs_or_stops (run : α → Evaluation σ SpecValue) (state : σ) (body : List α) :
    (∃ values last, Runs run state body values last) ∨
      ∃ before statement after values mid left stop, body = before ++ statement :: after ∧
        Runs run state before values mid ∧ Stops run mid statement left stop := by
  induction body generalizing state with
  | nil => exact .inl ⟨[], state, .nil state⟩
  | cons statement rest ih =>
    cases done : outcome (run statement) state with
    | mk result left =>
      cases result with
      | error stop =>
        exact .inr ⟨[], statement, rest, [], state, left, stop, rfl, .nil state, .failed done⟩
      | ok spec =>
        obtain ⟨v, yields⟩ | ⟨stop, halts⟩ := spec.yields_or_halts
        · obtain ⟨values, last, runs⟩ | ⟨before, stopping, after, values, mid, final, stop, rfl,
            runs, stops⟩ := ih left
          · exact .inl ⟨v :: values, last, .cons done yields runs⟩
          · exact .inr ⟨statement :: before, stopping, after, v :: values, mid, final, stop, rfl,
              .cons done yields runs, stops⟩
        · exact .inr ⟨[], statement, rest, [], state, left, stop, rfl, .nil state,
            .halted done halts⟩

/-- Statements that give values are run, and then the others with the last of these values. -/
theorem Runs.outcome_append (runs : Runs run state body values next) (rest : List α)
    (value : Option (Spanned Value)) :
    outcome (runStatements run value (body ++ rest)) state =
      outcome (runStatements run (values.getLast?.or value) rest) next := by
  induction runs generalizing value with
  | nil => rfl
  | @cons state next last statement body spec v values done yields _ ih =>
    have latest : (v :: values).getLast?.or value = values.getLast?.or (some v) := by
      rw [List.getLast?_cons]
      cases values.getLast? <;> rfl
    rw [List.cons_append, runStatements, outcome_bind_of_ok done, yields.getValue, latest]
    exact ih (some v)

theorem Runs.outcome (runs : Runs run state body values last) :
    outcome (runStatements run none body) state =
      (.ok (.completion (.normal (values.getLast?.getD ⟨.undefined, none⟩))), last) := by
  have whole := runs.outcome_append [] none
  rw [List.append_nil, Option.or_none] at whole
  exact whole

theorem Stops.outcome (stops : Stops run state statement left stop) (rest : List α)
    (value : Option (Spanned Value)) :
    outcome (runStatements run value (statement :: rest)) state = (.error stop, left) := by
  rw [runStatements]
  cases stops with
  | failed failed => rw [outcome_bind_of_error failed]
  | halted done halts =>
    rw [outcome_bind_of_ok done, halts.getValue]
    rfl

/-- However statements are run, all of them are and the result is the value of the last, undefined
where there are none; or there is a first one that fails or whose result stands for no value, none
after it is run, and what stopped it is the result. A program runs its statements so. -/
theorem statements_run_until_stopped (run : α → Evaluation σ SpecValue) (body : List α)
    (state : σ) :
    ((∃ values last v, Runs run state body values last ∧
        v = values.getLast?.getD ⟨.undefined, none⟩ ∧
        outcome (runStatements run none body) state =
          (.ok (.completion ⟨.normal, some v.value, none, v.span⟩), last) ∧
        outcome (runStatements (noted run) none body) ([], state) =
          (.ok (.completion ⟨.normal, some v.value, none, v.span⟩), body, last)) ∨
      ∃ before statement after values mid left stop, body = before ++ statement :: after ∧
        Runs run state before values mid ∧ Stops run mid statement left stop ∧
        outcome (runStatements run none body) state = (.error stop, left) ∧
        outcome (runStatements (noted run) none body) ([], state) =
          (.error stop, before ++ [statement], left)) ∧
    ∀ {τ : Type} (consumer : Consumer τ) (span : Span) (trees : List Tree),
      node consumer (.program span trees) = runStatements (node consumer) none trees := by
  constructor
  · obtain ⟨values, last, runs⟩ | ⟨before, statement, after, values, mid, left, stop, rfl, runs,
      stops⟩ := runs_or_stops run state body
    · exact .inl ⟨values, last, _, runs, rfl, runs.outcome, (runs.noted []).outcome⟩
    · refine .inr ⟨before, statement, after, values, mid, left, stop, rfl, runs, stops, ?_, ?_⟩
      · rw [runs.outcome_append]
        exact stops.outcome after _
      · rw [(runs.noted []).outcome_append]
        exact (stops.noted before).outcome after _
  · intro τ consumer span trees
    rw [node, statements_eq_runStatements]

end Evaluation
end Redex
