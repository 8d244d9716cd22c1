import Redex.Proofs.Session.Joining
import Redex.Proofs.Session.SingleLine
import Redex.Proofs.Text.WellFormed

/-! What the literal of a concatenation denotes. Operands whose contents end where the operands do
give a literal of the same kind, wherever it is put together, and so it can be an operand
again. -/
namespace Redex.Session

open Quoted (WellFormed Formed decode)

variable {session final : Session} {left right : Span} {quote : Char}

theorem quoteFor_style (style : session.options.defaultQuote = '\'' ∨
      session.options.defaultQuote = '"') (left right : Operand) :
    session.quoteFor left right = '\'' ∨ session.quoteFor left right = '"' := by
  obtain default | own := session.quoteFor_cases left right
  · rwa [default]
  · exact own

/-- What is appended in place of the right operand. Only an operand of the other style has a
`quote` to escape. -/
theorem Operand.appended_formed {right : Operand} (style : quote = '\'' ∨ quote = '"')
    (formed : Formed right.text) :
    WellFormed quote (right.appended quote) ∧
      decode (right.appended quote) = decode right.contents := by
  rw [Operand.appended]
  cases quoted : right.quote? with
  | none => exact ⟨formed.wellFormed style (.inl quoted), rfl⟩
  | some own =>
    dsimp only
    by_cases same : own = quote
    · rw [same] at quoted
      rw [if_pos same]
      exact ⟨formed.wellFormed style (.inr quoted), rfl⟩
    · rw [if_neg same]
      exact ⟨formed.wellFormed_escape, Quoted.decode_escape quote right.contents⟩

/-- Merged where they stand or replaced whole, the operands give a literal that denotes both. -/
theorem joinedLiteral_denotes (left right : Operand) (style : session.options.defaultQuote = '\'' ∨
      session.options.defaultQuote = '"')
    (leftFormed : Formed left.text) (rightFormed : Formed right.text) :
    ∃ contents,
      session.joinedLiteral left right =
        session.quoteFor left right :: contents ++ [session.quoteFor left right] ∧
      WellFormed (session.quoteFor left right) contents ∧
      decode contents = decode left.contents ++ decode right.contents := by
  have style := quoteFor_style style left right
  have kept : WellFormed (session.quoteFor left right) left.contents :=
    leftFormed.wellFormed style (session.quoteFor_own left right)
  cases enclosed : session.enclosed? left right with
  | none =>
    refine ⟨left.contents ++ Quoted.escape (session.quoteFor left right) right.contents,
      joinedLiteral_of_none enclosed, ?_, ?_⟩
    · exact kept.append rightFormed.wellFormed_escape
    · rw [Quoted.decode_append kept, Quoted.decode_escape, Operand.contents, Operand.contents]
  | some outer =>
    obtain ⟨wellFormed, denotes⟩ := Operand.appended_formed style rightFormed
    refine ⟨left.contents ++ right.appended (session.quoteFor left right),
      joinedLiteral_of_some enclosed, ?_, ?_⟩
    · exact kept.append wellFormed
    · rw [Quoted.decode_append kept, denotes]

/-- An accepted concatenation of operands in order leaves a literal in place of its stretch. If
each operand is a literal with well-formed contents or plain text, so are the contents of the
new one, and they denote what those of the left operand and then those of the right one do. -/
theorem concatenate_denotes_both (reachable : Reachable session)
    (style : session.options.defaultQuote = '\'' ∨ session.options.defaultQuote = '"')
    (accepted : outcome (consumer (.concatenate left right)) session = (.ok (), final))
    (ordered : session.text.place left.stop ≤ session.text.place right.start)
    (leftFormed : Formed (session.text.standing left))
    (rightFormed : Formed (session.text.standing right)) :
    let first := session.operandAt left
    let second := session.operandAt right
    let quote := session.quoteFor first second
    let range := session.joinedRange first second
    (quote = '\'' ∨ quote = '"') ∧ ∃ contents,
      final.text.live = session.text.live.take range.1 ++ (quote :: contents ++ [quote]) ++
        session.text.live.drop range.2 ∧
      WellFormed quote contents ∧
      decode contents = decode first.contents ++ decode second.contents := by
  obtain ⟨before, opens, between, closes, rest, joint, change, -⟩ :=
    concatenate_changes reachable.sound accepted ordered
  intro first second quote range
  obtain ⟨contents, literal, wellFormed, denotes⟩ :=
    joinedLiteral_denotes first second style leftFormed rightFormed
  refine ⟨quoteFor_style style first second, contents, ?_, wellFormed, denotes⟩
  rw [joint.take_eq, joint.drop_eq, ← literal]
  exact change.rewritten

/-- The right operand ends with an escaped backslash and has a bare and an escaped quote of the
other style. Its operands have a comment between them, so that both are replaced. -/
theorem concatenate_denotes_both_of_escapes :
    let source := ['\'', '\\', '\'', '\'', '/', '*', '*', '/', '+',
      '"', '\'', '\\', '\'', '\\', '\\', '"', ';']
    let session := ofText source {}
    let final := (outcome (consumer (.concatenate ⟨0, 4⟩ ⟨9, 16⟩)) session).2
    Reachable session ∧
    (session.options.defaultQuote = '\'' ∨ session.options.defaultQuote = '"') ∧
    outcome (consumer (.concatenate ⟨0, 4⟩ ⟨9, 16⟩)) session = (.ok (), final) ∧
    session.text.place 4 ≤ session.text.place 9 ∧
    Formed (session.text.standing ⟨0, 4⟩) ∧ Formed (session.text.standing ⟨9, 16⟩) ∧
    ∃ contents, final.text.live = '\'' :: contents ++ ['\'', ';'] ∧
      WellFormed '\'' contents ∧ decode contents = ['\'', '\'', '\'', '\\'] := by
  intro source session final
  have reachable : Reachable session := .ofText _ _
  have style : session.options.defaultQuote = '\'' ∨ session.options.defaultQuote = '"' := .inl rfl
  have accepted : outcome (consumer (.concatenate ⟨0, 4⟩ ⟨9, 16⟩)) session = (.ok (), final) :=
    outcome_eq_of_ok (by rfl)
  have ordered : session.text.place 4 ≤ session.text.place 9 := by decide +kernel
  have leftFormed : Formed (session.text.standing ⟨0, 4⟩) :=
    @Formed.literal '\'' ['\\', '\''] (.inl rfl) (by decide)
  have rightFormed : Formed (session.text.standing ⟨9, 16⟩) :=
    @Formed.literal '"' ['\'', '\\', '\'', '\\', '\\'] (.inr rfl) (by decide)
  have range : session.joinedRange (session.operandAt ⟨0, 4⟩) (session.operandAt ⟨9, 16⟩) =
      (0, 16) := by decide +kernel
  have quote : session.quoteFor (session.operandAt ⟨0, 4⟩) (session.operandAt ⟨9, 16⟩) = '\'' := by
    decide +kernel
  have denoted := concatenate_denotes_both reachable style accepted ordered leftFormed rightFormed
  simp only [range, quote] at denoted
  obtain ⟨-, contents, live, wellFormed, denotes⟩ := denoted
  refine ⟨reachable, style, accepted, ordered, leftFormed, rightFormed, contents, ?_, ?_, ?_⟩
  · rw [live]
    simp only [List.append_assoc]
    rfl
  · exact wellFormed
  · exact denotes.trans (by decide +kernel)

end Redex.Session
