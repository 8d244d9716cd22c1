import Redex.Proofs.Session.Addressing

/-! Operations whose spans are out of order. A reversed operand is refused where its text is
taken. Nothing checks the range of a replacement, nor that the operands come one after the
other: such an operation is carried out, and where it ends before it begins it removes nothing. -/
namespace Redex

def Reduction.operands : Reduction → List Span
  | .replace _ _ => []
  | .concatenate left right => [left, right]

namespace Session

variable {session : Session} {left right : Span} {reduction : Reduction}

/-- The range of a replacement is reversed, or one of two operands, or the right one starts before
the left one ends. -/
def Misordered (session : Session) : Reduction → Prop
  | .replace range _ => session.text.Reversed range
  | .concatenate left right => session.text.Reversed left ∨ session.text.Reversed right ∨
    session.text.place right.start < session.text.place left.stop

/-- What the operation puts in, if it is not merged where it stands. -/
def written (session : Session) : Reduction → List Char
  | .replace _ text => text.toList
  | .concatenate left right =>
    let first := session.operandAt left
    let second := session.operandAt right
    mergedLiteral (session.quoteFor first second) first second

/-- The first operand that is reversed is refused. -/
theorem outcome_of_reversed_operand (sound : session.text.Sound)
    (within : (Reduction.concatenate left right).Within session.text.source.length)
    (allowed : session.Allows ⟨left.start, right.stop⟩)
    (reversed : session.text.Reversed left ∨ session.text.Reversed right) :
    ∃ span ∈ [left, right], session.text.Reversed span ∧
      outcome (consumer (.concatenate left right)) session =
        (.error (.edit (.reversed (session.text.place span.start) (session.text.place span.stop))),
          session) := by
  obtain ⟨first, last, begins, ends, read⟩ := outcome_readOperands sound within
  rw [outcome_bind_of_ok (outcome_checkLines_of_allows allowed begins ends)] at read
  simp only [consumer, concatenate_eq]
  by_cases leftReversed : session.text.Reversed left
  · refine ⟨left, List.mem_cons_self, leftReversed, outcome_bind_of_error ?_ _⟩
    rw [read, outcome_bind_of_error (outcome_slice_of_reversed leftReversed)]
  · have rightReversed := reversed.resolve_left leftReversed
    refine ⟨right, List.mem_cons_of_mem _ List.mem_cons_self, rightReversed,
      outcome_bind_of_error ?_ _⟩
    rw [read, outcome_bind_of_ok (outcome_slice_of_ordered sound within.1.2 leftReversed),
      outcome_bind_of_error (outcome_slice_of_reversed rightReversed)]

/-- Operands that overlap, or are swapped, are not enclosed, and so they are replaced whole. -/
theorem outcome_of_overlapping_operands (sound : session.text.Sound)
    (within : (Reduction.concatenate left right).Within session.text.source.length)
    (allowed : session.Allows ⟨left.start, right.stop⟩)
    (leftOrdered : ¬ session.text.Reversed left) (rightOrdered : ¬ session.text.Reversed right)
    (overlapping : session.text.place right.start < session.text.place left.stop) :
    ∃ edited,
      outcome (consumer (.concatenate left right)) session = (.ok (), session.shown edited) ∧
      edited.live = session.text.live.take (session.text.place left.start) ++
        session.written (.concatenate left right) ++
        session.text.live.drop
          (max (session.text.place left.start) (session.text.place right.stop)) := by
  have apart : ¬ ((session.operandAt left).stop ≤ (session.operandAt right).start ∧
      (session.operandAt right).start ≤ session.text.live.length) := by
    rintro ⟨ordered, -⟩
    exact absurd ordered (Nat.not_le_of_lt overlapping)
  have enclosed : session.enclosed? (session.operandAt left) (session.operandAt right) = none := by
    rw [enclosed?, Grouping.enclosing?, if_neg apart]
  obtain ⟨edited, replaced, live⟩ := replaceLive_at sound ⟨left.start, right.stop⟩
    within.1.1 within.2.2 (session.written (.concatenate left right))
  refine ⟨edited, ?_, live⟩
  simp only [consumer, concatenate_eq]
  rw [outcome_bind_of_ok (readOperands_of_ordered sound within allowed leftOrdered rightOrdered)]
  exact outcome_mergeOperands_of_none enclosed replaced

/-- An operation of which the spans are out of order, whatever was done before. It is refused and
leaves the session as it was if it is refused for its lines or has a reversed operand. Otherwise it
is accepted: its text is put in at its start, in place of what stands from there to its end.
If it ends before it starts nothing is removed. -/
theorem misordered_operation (reachable : Reachable session)
    (within : reduction.Within session.text.source.length)
    (misordered : session.Misordered reduction) :
    (¬ session.Allows reduction.reach → ∃ first last, first ≠ last ∧
      outcome (consumer reduction) session = (.error (.spansLines first last), session)) ∧
    (session.Allows reduction.reach →
      (∃ span ∈ reduction.operands, session.text.Reversed span ∧
        outcome (consumer reduction) session =
          (.error (.edit (.reversed (session.text.place span.start)
            (session.text.place span.stop))), session)) ∨
      (∀ span ∈ reduction.operands, ¬ session.text.Reversed span) ∧ ∃ edited,
        outcome (consumer reduction) session = (.ok (), session.shown edited) ∧
        edited.live = session.text.live.take (session.text.place reduction.reach.start) ++
          session.written reduction ++
          session.text.live.drop (max (session.text.place reduction.reach.start)
            (session.text.place reduction.reach.stop))) := by
  have sound := reachable.sound
  refine ⟨outcome_of_not_allows sound within, ?_⟩
  intro allowed
  cases reduction with
  | replace range text =>
    refine .inr ⟨fun _ none => absurd none List.not_mem_nil, ?_⟩
    exact outcome_of_allowed_replacement sound within allowed
  | concatenate left right =>
    by_cases reversed : session.text.Reversed left ∨ session.text.Reversed right
    · exact .inl (outcome_of_reversed_operand sound within allowed reversed)
    · obtain ⟨leftOrdered, rightOrdered⟩ := not_or.mp reversed
      have overlapping :=
        (misordered.resolve_left leftOrdered).resolve_left rightOrdered
      refine .inr ⟨?_, ?_⟩
      · simpa [Reduction.operands] using And.intro leftOrdered rightOrdered
      · exact outcome_of_overlapping_operands sound within allowed leftOrdered rightOrdered
          overlapping

/-- Two operands given in the wrong order: both stay, and so does what is between them. -/
theorem misordered_operation_of_swapped_operands :
    let session := ofText ['\'', 'a', '\'', ' ', '+', ' ', '\'', 'b', '\''] {}
    let reduction := Reduction.concatenate ⟨6, 9⟩ ⟨0, 3⟩
    Reachable session ∧ reduction.Within session.text.source.length ∧
      session.Misordered reduction ∧ session.Allows reduction.reach ∧
      ∃ edited, outcome (consumer reduction) session = (.ok (), session.shown edited) ∧
        edited.live = ['\'', 'a', '\'', ' ', '+', ' ', '\'', 'b', 'a', '\'', '\'', 'b', '\''] := by
  intro session reduction
  have reachable : Reachable session := .ofText _ _
  have within : reduction.Within session.text.source.length := by decide
  have misordered : session.Misordered reduction := .inr (.inr (by decide +kernel))
  have allowed : session.Allows reduction.reach := fun _ => ⟨⟨6, 0, 6⟩, ⟨3, 0, 3⟩, rfl, rfl, rfl⟩
  refine ⟨reachable, within, misordered, allowed, ?_⟩
  obtain ⟨-, goesOn⟩ := misordered_operation reachable within misordered
  obtain ⟨span, member, reversed, -⟩ | ⟨-, edited, accepted, live⟩ := goesOn allowed
  · have ordered : ∀ span ∈ reduction.operands,
        session.text.place span.start ≤ session.text.place span.stop := by decide +kernel
    exact absurd (ordered span member) (Nat.not_le_of_lt reversed)
  · exact ⟨edited, accepted, live.trans (by decide +kernel)⟩

/-- The whole of a sum is replaced, but by its ends in the wrong order. The operation is accepted,
and the sum stays beside its text. -/
theorem reversed_replacement_inserts :
    let session := ofText ['1', ' ', '+', ' ', '2'] {}
    let final := (outcome (consumer (.replace ⟨5, 0⟩ "3")) session).2
    Reachable session ∧ (Reduction.replace ⟨5, 0⟩ "3").Within session.text.source.length ∧
      session.Misordered (.replace ⟨5, 0⟩ "3") ∧
      outcome (consumer (.replace ⟨5, 0⟩ "3")) session = (.ok (), final) ∧
      final.text.live = ['1', ' ', '+', ' ', '2', '3'] ∧ final.text.log.length = 1 ∧
      final.frames = [final.text.live] := by
  intro session final
  refine ⟨.ofText _ _, by decide, ?_, outcome_eq_of_ok (by rfl), by rfl, by rfl, by rfl⟩
  show session.text.place 0 < session.text.place 5
  decide +kernel

end Session
end Redex
