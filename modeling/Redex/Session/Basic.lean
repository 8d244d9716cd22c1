import Redex.Evaluation.Refusal
import Redex.Session.Options
import Redex.Text.Span

/-! A session shows the steps of an evaluation in a live copy of the source. The
spans of a step are source offsets; they are located in the live text before
every edit, so that earlier edits never invalidate them. Edits are made one by
one, and a frame is added once a step has made all of its own. -/
namespace Redex

structure Session where
  text : LiveText
  options : Options
  /-- The live text after each applied step, oldest first. -/
  frames : List (List Char)

namespace Session

def ofText (source : List Char) (options : Options := {}) : Session :=
  ⟨.ofText source, options, []⟩

/-- Something done to a session. What was edited before a failure stays edited. -/
abbrev Action (α : Type) := ExceptT Refusal (StateM Session) α

def ofEdit {α : Type} (result : Except LiveText.Error α) : Action α :=
  ExceptT.mk (pure (result.mapError .edit))

/-- The live position of a source offset. -/
def locate (offset : Nat) : Action Position := do
  ofEdit ((← get).text.locate offset)

def slice (start stop : Nat) : Action (List Char) := do
  ofEdit ((← get).text.slice start stop)

def insert (offset : Nat) (text : List Char) : Action Unit := do
  let session ← get
  let text ← ofEdit (session.text.insert offset text)
  set { session with text }

def remove (start stop : Nat) : Action Unit := do
  let session ← get
  let text ← ofEdit (session.text.remove start stop)
  set { session with text }

def addFrame : Action Unit :=
  modify fun session => { session with frames := session.frames ++ [session.text.live] }

/-- Refuses a range that begins and ends on different lines, if the session is
for single lines. -/
def checkLines (start stop : Position) : Action Unit := do
  if (← get).options.singleLine ∧ start.line ≠ stop.line then
    throw (.spansLines start.line stop.line)

/-- Puts `text` in the place of a live range. It is inserted before the old text
is removed, so that the offsets that were at the end of the old text are at the
end of the new one. -/
def replaceLive (start stop : Nat) (text : List Char) : Action Unit := do
  if text ≠ [] then insert start text
  if start < stop then remove (start + text.length) (stop + text.length)

/-- Applies a replacement of a source range. -/
def replaceRange (range : Span) (text : List Char) : Action Unit := do
  let start ← locate range.start
  let stop ← locate range.stop
  checkLines start stop
  replaceLive start.offset stop.offset text
  addFrame

end Session
end Redex
