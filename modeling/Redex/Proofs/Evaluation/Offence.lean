import Redex.Proofs.Evaluation.Delivery

/-! Which trees evaluate, and how the others fail. Along the way through a tree
there is either no node that is not evaluated, and then the tree has a value, or
there is a first one, and then its failure is the result. In both cases the
additions that were left by then are the steps. -/
namespace Redex

/-- The failures that say what is not evaluated. -/
def Failure.IsUnsupported : Failure → Prop
  | .unsupportedNode _ | .unsupportedOperator _ | .unsupportedLiteral _ => True
  | _ => False

namespace Consumer

variable {σ : Type}

/-- Whether no reduction is ever refused. -/
def AcceptsAll (consumer : Consumer σ) : Prop :=
  ∀ reduction state, (outcome (consumer reduction) state).1 = .ok ()

theorem AcceptsAll.accepts {consumer : Consumer σ} (all : consumer.AcceptsAll) (state : σ)
    (reductions : List Reduction) : ∃ last, consumer.Accepts state reductions last := by
  apply (consumer.accepts_or_refuses state reductions).resolve_right
  rintro ⟨_, reduction, _, mid, refusal, left, -, -, refused⟩
  have accepted := all reduction mid
  rw [refused] at accepted
  contradiction

end Consumer

namespace Tree

theorem isUnsupported_of_offence {node : Tree} {failure : Failure}
    (offends : node.offence? = some failure) : failure.IsUnsupported := by
  cases node with
  | program | expressionStatement => contradiction
  | binary span operator left right =>
    rw [offence?] at offends
    split at offends
    · contradiction
    · cases offends
      trivial
  | literal span x raw =>
    cases x with
    | regExp | bigInt =>
      cases offends
      trivial
    | _ => contradiction
  | leaf span kind =>
    cases offends
    trivial

/-- What the recorder gets of a tree: its value and all its additions, or the failure of the
first node that offends and the additions left before it. -/
theorem record_cases (tree : Tree) :
    (∃ v issued, Visit.Clean tree.visits ∧ Visit.Issue tree.visits issued ∧
      tree.value? = some v ∧ v.value.isSymbol = false ∧
      tree.record = (.ok (.normal v), Step.numbered issued)) ∨
    ∃ before node after failure issued, tree.visits = before ++ .enter node :: after ∧
      Visit.Clean before ∧ node.offence? = some failure ∧ Visit.Issue before issued ∧
      tree.record = (.error failure, Step.numbered issued) := by
  cases tree.complete_follows with
  | finished clean issue value plays =>
    obtain ⟨v, same, ordinary, rfl⟩ := value
    exact .inl ⟨v, _, clean, issue, same, ordinary, record_of_plays plays⟩
  | stopped split clean offends issue plays =>
    exact .inr ⟨_, _, _, _, _, split, clean, offends, issue, record_of_plays plays⟩

/-- The recorded result is normal with a value, or it says what is not evaluated. -/
theorem record_result_cases (tree : Tree) :
    (∃ v, v.value.isSymbol = false ∧ tree.record.1 = .ok (.normal v)) ∨
      ∃ failure, failure.IsUnsupported ∧ tree.record.1 = .error failure := by
  obtain ⟨v, issued, -, -, -, ordinary, recorded⟩ |
    ⟨before, node, after, failure, issued, -, -, offends, -, recorded⟩ := tree.record_cases
  · exact .inl ⟨v, ordinary, congrArg Prod.fst recorded⟩
  · exact .inr ⟨failure, isUnsupported_of_offence offends, congrArg Prod.fst recorded⟩

/-- A tree without a node that offends evaluates to a value, and each of its additions is a
step. Any other fails as the first such node in order says, and its steps are those of the
additions that are complete by then. It is so for every consumer that accepts all it is
handed. No other failure and no abrupt completion comes out of a tree, whoever consumes the
steps, but that a step is refused. -/
theorem evaluation_stops_at_first_offence (tree : Tree) :
    ((∃ v issued, Visit.Clean tree.visits ∧ Visit.Issue tree.visits issued ∧
        tree.value? = some v ∧ v.value.isSymbol = false ∧
        tree.record = (.ok (.normal v), Step.numbered issued)) ∨
      ∃ before node after failure issued, tree.visits = before ++ .enter node :: after ∧
        Visit.Clean before ∧ node.offence? = some failure ∧ Visit.Issue before issued ∧
        tree.record = (.error failure, Step.numbered issued)) ∧
    (∀ {σ : Type} (consumer : Consumer σ) (state : σ), consumer.AcceptsAll →
      ∃ last, (tree.evaluate consumer.observed).run ([], state) =
        (tree.record.1, tree.record.2.map (·.reduction), last)) ∧
    ∀ {σ : Type} (consumer : Consumer σ) (state : σ),
      (∃ v, v.value.isSymbol = false ∧
        ((tree.evaluate consumer).run state).1 = .ok (.normal v)) ∨
      ∃ failure, (failure.IsUnsupported ∨ ∃ refusal, failure = .refused refusal) ∧
        ((tree.evaluate consumer).run state).1 = .error failure := by
  refine ⟨tree.record_cases, ?_, ?_⟩
  · intro σ consumer state all
    obtain ⟨last, accepted⟩ := all.accepts state (tree.record.2.map (·.reduction))
    exact ⟨last, evaluate_of_accepts (accepted.observed [])⟩
  · intro σ consumer state
    obtain ⟨last, accepted⟩ | ⟨before, reduction, rest, mid, refusal, left, split, accepted,
      refused⟩ := consumer.accepts_or_refuses state (tree.record.2.map (·.reduction))
    · rw [evaluate_of_accepts accepted]
      obtain ⟨v, ordinary, same⟩ | ⟨failure, unsupported, same⟩ := tree.record_result_cases
      · exact .inl ⟨v, ordinary, same⟩
      · exact .inr ⟨failure, .inl unsupported, same⟩
    · rw [evaluate_of_refused split accepted refused]
      exact .inr ⟨_, .inr ⟨refusal, rfl⟩, rfl⟩

/-- In `'a' + 'b' + (0 - null)` the left operand is evaluated and the right one fails. -/
theorem evaluation_stops_at_first_offence_in_operand :
    let left : Tree := .binary ⟨0, 9⟩ .addition (.literal ⟨0, 3⟩ (.string "a") none)
      (.literal ⟨6, 9⟩ (.string "b") none)
    let right : Tree := .binary ⟨13, 21⟩ .subtraction (.literal ⟨13, 14⟩ (.number .zero) none)
      (.literal ⟨17, 21⟩ .null none)
    let tree : Tree := .binary ⟨0, 22⟩ .addition left right
    Consumer.recorder.AcceptsAll ∧ ∃ last,
      (tree.evaluate Consumer.recorder.observed).run ([], []) =
        (.error (.unsupportedOperator .subtraction), [.concatenate ⟨0, 3⟩ ⟨6, 9⟩], last) := by
  intro left right tree
  have accepts : Consumer.recorder.AcceptsAll := fun _ _ => rfl
  have recorded : tree.record =
      (.error (.unsupportedOperator .subtraction), [⟨0, .concatenate ⟨0, 3⟩ ⟨6, 9⟩⟩]) := rfl
  obtain ⟨-, all, -⟩ := evaluation_stops_at_first_offence tree
  obtain ⟨last, same⟩ := all Consumer.recorder [] accepts
  rw [recorded] at same
  exact ⟨accepts, last, same⟩

end Tree
end Redex
