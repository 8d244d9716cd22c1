import Redex.Proofs.Outcome
import Redex.Session.Basic

/-! What the single actions of a session come to: lookups and checks leave the
session alone, and an edit that is refused leaves it alone too. -/
namespace Redex.Session

theorem outcome_ofEdit {α : Type} (result : Except LiveText.Error α) (session : Session) :
    outcome (ofEdit result) session = (result.mapError .edit, session) := rfl

theorem outcome_locate (offset : Nat) (session : Session) :
    outcome (locate offset) session = ((session.text.locate offset).mapError .edit, session) := rfl

theorem outcome_slice (start stop : Nat) (session : Session) :
    outcome (slice start stop) session =
      ((session.text.slice start stop).mapError .edit, session) := rfl

theorem outcome_addFrame (session : Session) :
    outcome addFrame session =
      (.ok (), { session with frames := session.frames ++ [session.text.live] }) := rfl

theorem outcome_insert (offset : Nat) (text : List Char) (session : Session) :
    outcome (insert offset text) session =
      match session.text.insert offset text with
      | .ok edited => (.ok (), { session with text := edited })
      | .error e => (.error (.edit e), session) := by
  cases made : session.text.insert offset text <;>
    simp only [insert, outcome_bind, outcome_get, outcome_ofEdit, made] <;> rfl

theorem outcome_remove (start stop : Nat) (session : Session) :
    outcome (remove start stop) session =
      match session.text.remove start stop with
      | .ok edited => (.ok (), { session with text := edited })
      | .error e => (.error (.edit e), session) := by
  cases made : session.text.remove start stop <;>
    simp only [remove, outcome_bind, outcome_get, outcome_ofEdit, made] <;> rfl

theorem outcome_checkLines (start stop : Position) (session : Session) :
    outcome (checkLines start stop) session =
      (if session.options.singleLine ∧ start.line ≠ stop.line then
        .error (.spansLines start.line stop.line) else .ok (), session) := by
  simp only [checkLines, outcome_bind, outcome_get]
  split <;> rfl

end Redex.Session
