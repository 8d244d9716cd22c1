import Redex.Proofs.Program.Denoting
import Redex.Proofs.Session.Operations

/-! The source in the live text while an evaluation goes on. The part that is
still to be evaluated stands there as it was written, offset by offset. An
expression that was evaluated is its parentheses around one literal, and the
span of its value is where that literal stands. -/
namespace Redex.Written

variable {session : Session} {before old new front back rest : List Char} {start : Nat}

/-- The source from `start` on stands as `old` in the live text, between `before` and `rest`. -/
structure Placed (session : Session) (start : Nat) (before old rest : List Char) : Prop where
  sound : session.text.Sound
  unbroken : session.Unbroken
  live : session.text.live = before ++ old ++ rest
  place : ∀ {i}, i ≤ old.length → session.text.place (start + i) = before.length + i
  within : start + old.length ≤ session.text.source.length

namespace Placed

theorem take (placed : Placed session start before (old ++ back) rest) :
    Placed session start before old (back ++ rest) where
  sound := placed.sound
  unbroken := placed.unbroken
  live := by rw [placed.live]; simp only [List.append_assoc]
  place inside := placed.place (by rw [List.length_append]; omega)
  within := by
    have := placed.within
    rw [List.length_append] at this
    omega

theorem drop (placed : Placed session start before (front ++ old) rest) :
    Placed session (start + front.length) (before ++ front) old rest where
  sound := placed.sound
  unbroken := placed.unbroken
  live := by rw [placed.live]; simp only [List.append_assoc]
  place inside := by
    rw [Nat.add_assoc, placed.place (by rw [List.length_append]; omega), List.length_append]
    omega
  within := by
    have := placed.within
    rw [List.length_append] at this
    omega

theorem first (placed : Placed session start before old rest) :
    session.text.place start = before.length :=
  placed.place (Nat.zero_le _)

theorem last (placed : Placed session start before old rest) :
    session.text.place (start + old.length) = (before ++ old).length := by
  rw [placed.place (Nat.le_refl _), List.length_append]

end Placed

/-- What evaluating an expression that begins at `start` did to a session. -/
structure Reduced (session next : Session) (start : Nat) (before rest : List Char)
    (e : Expression) (v : Value) (span : Span) (literal : List Char) : Prop where
  value : e.value = .ok v
  denotes : Denotes e.quote? literal v
  settles : e.Settles (e.opens ++ literal ++ e.closes)
  rewrites : session.text.Rewrites next.text before e.text (e.opens ++ literal ++ e.closes) rest
  options : next.options = session.options
  spanStart : next.text.place span.start = (before ++ e.opens).length
  spanStop : next.text.place span.stop = (before ++ e.opens ++ literal).length
  inside : start ≤ span.start ∧ span.start ≤ span.stop ∧ span.stop ≤ start + e.text.length

theorem Reduced.clean {next : Session} {e : Expression} {v : Value} {span : Span}
    {literal : List Char} (reduced : Reduced session next start before rest e v span literal)
    (none : '\n' ∉ e.text) : '\n' ∉ e.opens ++ literal ++ e.closes := by
  simp only [List.mem_append, not_or]
  exact ⟨⟨fun member => none (e.mem_of_opens member), reduced.denotes.unbroken⟩,
    fun member => none (e.mem_of_closes member)⟩

end Redex.Written
