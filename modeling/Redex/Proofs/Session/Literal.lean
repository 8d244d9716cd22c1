import Redex.Proofs.Session.Joining
import Redex.Proofs.Text.Delimiting

/-! The literal that a concatenation makes of two operands. Operands that are merged where they
stand become the literal that takes the place of operands replaced whole, unless the right one
holds a quote that only a replacement escapes. From then on the outer ends of the operands
delimit the literal. -/
namespace Redex.Session

variable {session final : Session} {left right : Span}

/-- A merge in place escapes quotes only in an operand that has quotes of the other style. -/
theorem Operand.merged_eq_iff {quote : Char} {left right : Operand} :
    Operand.merged quote left right = mergedLiteral quote left right ↔
      (∃ own, right.quote? = some own ∧ own ≠ quote) ∨
        Quoted.bare quote right.contents = [] := by
  have same : Operand.merged quote left right = mergedLiteral quote left right ↔
      right.appended quote = Quoted.escape quote right.contents := by
    simp only [Operand.merged, mergedLiteral, List.append_cancel_right_eq,
      List.append_cancel_left_eq]
  rw [same, Operand.appended]
  cases quoted : right.quote? with
  | none =>
    rw [eq_comm, Quoted.escape_eq_self_iff]
    simp
  | some own =>
    by_cases style : own = quote
    · simp only [if_pos style]
      rw [eq_comm, Quoted.escape_eq_self_iff]
      simp [style]
    · simp [style]

/-- The literal is the same whether or not the operands are merged where they stand. -/
theorem joinedLiteral_eq_iff {left right : Operand} :
    session.joinedLiteral left right = mergedLiteral (session.quoteFor left right) left right ↔
      session.enclosed? left right = none ∨
        (∃ own, right.quote? = some own ∧ own ≠ session.quoteFor left right) ∨
        Quoted.bare (session.quoteFor left right) right.contents = [] := by
  cases enclosed : session.enclosed? left right with
  | none => simp [joinedLiteral_of_none enclosed]
  | some outer => simp [joinedLiteral_of_some enclosed, Operand.merged_eq_iff]

theorem joinedLiteral_of_bare_eq_nil {left right : Operand}
    (none : Quoted.bare (session.quoteFor left right) right.contents = []) :
    session.joinedLiteral left right = session.quoteFor left right ::
      (left.contents ++ right.contents) ++ [session.quoteFor left right] := by
  rw [joinedLiteral_eq_iff.mpr (.inr (.inr none)), mergedLiteral,
    Quoted.escape_eq_self_iff.mpr none, List.cons_append]

/-- An accepted concatenation of operands in order puts both contents into one pair of quotes, with
the quotes in the right one escaped, and changes nothing outside its stretch. It fails to escape
them just when it merges the operands where they stand and the right one is not quoted in the
other style. -/
theorem concatenate_quotes_contents_iff (reachable : Reachable session)
    (accepted : outcome (consumer (.concatenate left right)) session = (.ok (), final))
    (ordered : session.text.place left.stop ≤ session.text.place right.start) :
    let first := session.operandAt left
    let second := session.operandAt right
    let quote := session.quoteFor first second
    let range := session.joinedRange first second
    final.text.live = session.text.live.take range.1 ++
        (quote :: first.contents ++ Quoted.escape quote second.contents ++ [quote]) ++
        session.text.live.drop range.2 ↔
      session.enclosed? first second = none ∨
        (∃ own, second.quote? = some own ∧ own ≠ quote) ∨
        Quoted.bare quote second.contents = [] := by
  obtain ⟨before, opens, between, closes, rest, joint, change, -⟩ :=
    concatenate_changes reachable.sound accepted ordered
  intro first second quote range
  have whole : before ++ session.joinedLiteral first second ++ rest =
      before ++ mergedLiteral quote first second ++ rest ↔
        session.joinedLiteral first second = mergedLiteral quote first second := by
    simp only [List.append_cancel_right_eq, List.append_cancel_left_eq]
  rw [change.rewritten, joint.take_eq, joint.drop_eq, ← joinedLiteral_eq_iff]
  exact whole

/-- The right operand is in parentheses and in the other style, with a quote to escape. -/
theorem concatenate_quotes_contents_iff_of_other_style :
    let session := ofText ['\'', '7', '\'', '+', '(', '"', '\'', '"', ')', ';'] {}
    let final := (outcome (consumer (.concatenate ⟨0, 3⟩ ⟨5, 8⟩)) session).2
    Reachable session ∧
    outcome (consumer (.concatenate ⟨0, 3⟩ ⟨5, 8⟩)) session = (.ok (), final) ∧
    session.text.place 3 ≤ session.text.place 5 ∧
    session.enclosed? (session.operandAt ⟨0, 3⟩) (session.operandAt ⟨5, 8⟩) = some (0, 9) ∧
    final.text.live = ['\'', '7', '\\', '\'', '\'', ';'] := by
  intro session final
  have reachable : Reachable session := .ofText _ _
  have accepted : outcome (consumer (.concatenate ⟨0, 3⟩ ⟨5, 8⟩)) session = (.ok (), final) :=
    outcome_eq_of_ok (by rfl)
  have ordered : session.text.place 3 ≤ session.text.place 5 := by decide +kernel
  refine ⟨reachable, accepted, ordered, by decide +kernel, ?_⟩
  refine ((concatenate_quotes_contents_iff reachable accepted ordered).mpr ?_).trans ?_
  · exact .inr (.inl ⟨'"', by decide +kernel⟩)
  · decide +kernel

/-- After an accepted concatenation of operands in order, the right of which is not empty, the outer
ends of the operands delimit the literal. Lookups ahead of the stretch stay, those behind it move
along, and those in it stay in the literal. Whatever was found behind the right operand and
still in the stretch is found at the end of the literal. -/
theorem concatenate_delimits_literal (reachable : Reachable session)
    (accepted : outcome (consumer (.concatenate left right)) session = (.ok (), final))
    (ordered : session.text.place left.stop ≤ session.text.place right.start)
    (filled : session.text.standing right ≠ []) :
    let first := session.operandAt left
    let second := session.operandAt right
    let range := session.joinedRange first second
    let literal := session.joinedLiteral first second
    (range.1 ≤ first.start ∧ second.stop ≤ range.2 ∧ range.2 ≤ session.text.live.length) ∧
      final.text.live =
        session.text.live.take range.1 ++ literal ++ session.text.live.drop range.2 ∧
      final.text.Finds left.start range.1 ∧
      final.text.Finds right.stop (range.1 + literal.length) ∧
      final.text.Delimits ⟨left.start, right.stop⟩ literal ∧
      session.text.Moves final.text range.1 range.2 literal.length ∧
      ∀ {offset place}, session.text.Finds offset place → second.stop ≤ place →
        place ≤ range.2 → final.text.Finds offset (range.1 + literal.length) := by
  have sound := reachable.sound
  obtain ⟨found, -⟩ := concatenate_found accepted
  obtain ⟨before, opens, between, closes, rest, joint, change, -, atStart, atStop⟩ :=
    concatenate_changes sound accepted ordered
  intro first second range literal
  have sound' := change.sound sound
  have span : range = (before.length, _) := joint.range_eq
  have around : range.1 ≤ first.start ∧ second.stop ≤ range.2 ∧
      range.2 ≤ session.text.live.length := joint.bounds
  have starts : final.text.Finds left.start before.length :=
    sound'.finds_iff.mpr ⟨change.source ▸ found.leftLocated.startWithin, atStart⟩
  have stops {offset place : Nat} (there : session.text.Finds offset place)
      (late : second.stop ≤ place) (early : place ≤ range.2) :
      final.text.Finds offset (before ++ literal).length := by
    obtain ⟨within, rfl⟩ := sound.finds_iff.mp there
    exact sound'.finds_iff.mpr ⟨change.source ▸ within, atStop filled late early⟩
  have behind : session.text.Finds right.stop second.stop :=
    sound.finds_iff.mpr ⟨found.rightLocated.stopWithin, rfl⟩
  have ends := stops behind (Nat.le_refl _) around.2.1
  have length : range.1 + literal.length = (before ++ literal).length := by
    rw [List.length_append, span]
  rw [length]
  refine ⟨around, ?_, span ▸ starts, ends, ?_, ?_, stops⟩
  · rw [joint.take_eq, joint.drop_eq]
    exact change.rewritten
  · exact LiveText.delimits_of_finds change.rewritten starts ends
  · rw [span]
    exact change.moves sound

/-- A left operand of one character without quotes, and a right one without contents. The stretch
ends behind the parenthesis of the right one. -/
theorem concatenate_delimits_literal_of_empty_contents :
    let session := ofText ['(', '7', ')', ' ', '+', ' ', '(', '\'', '\'', ')', ';'] {}
    let final := (outcome (consumer (.concatenate ⟨1, 2⟩ ⟨7, 9⟩)) session).2
    Reachable session ∧
    outcome (consumer (.concatenate ⟨1, 2⟩ ⟨7, 9⟩)) session = (.ok (), final) ∧
    session.text.place 2 ≤ session.text.place 7 ∧ session.text.standing ⟨7, 9⟩ ≠ [] ∧
    session.joinedRange (session.operandAt ⟨1, 2⟩) (session.operandAt ⟨7, 9⟩) = (0, 10) ∧
    final.text.Delimits ⟨1, 9⟩ ['\'', '7', '\''] ∧ final.text.Finds 10 3 ∧
    final.text.Finds 11 4 := by
  intro session final
  have reachable : Reachable session := .ofText _ _
  have accepted : outcome (consumer (.concatenate ⟨1, 2⟩ ⟨7, 9⟩)) session = (.ok (), final) :=
    outcome_eq_of_ok (by rfl)
  have ordered : session.text.place 2 ≤ session.text.place 7 := by decide +kernel
  have filled : session.text.standing ⟨7, 9⟩ ≠ [] := by decide +kernel
  have range : session.joinedRange (session.operandAt ⟨1, 2⟩) (session.operandAt ⟨7, 9⟩) =
      (0, 10) := by decide +kernel
  have literal : session.joinedLiteral (session.operandAt ⟨1, 2⟩) (session.operandAt ⟨7, 9⟩) =
      ['\'', '7', '\''] := by decide +kernel
  have behind : session.text.Finds 10 10 := ⟨⟨10, 0, 10⟩, rfl, rfl⟩
  have beyond : session.text.Finds 11 11 := ⟨⟨11, 0, 11⟩, rfl, rfl⟩
  have delimits := concatenate_delimits_literal reachable accepted ordered filled
  simp only [range, literal] at delimits
  obtain ⟨-, -, -, -, delimits, moves, ends⟩ := delimits
  refine ⟨reachable, accepted, ordered, filled, range, delimits, ?_, ?_⟩
  · exact ends behind (by decide +kernel) (Nat.le_refl _)
  · exact moves.beyond beyond (by decide)

end Redex.Session
