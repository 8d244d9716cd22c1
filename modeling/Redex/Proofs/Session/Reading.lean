import Redex.Proofs.Session.Operations
import Redex.Proofs.Text.Lines
import Redex.Session.Consumer

/-! Every operation reads before it edits. It looks its spans up, checks their
lines and takes the text of its operands, and it makes its edits with what it
has found. Reading leaves a session as it was, whether it is refused or not. -/
namespace Redex.Session

variable {α β : Type} {session : Session}

/-- An action that changes no session. -/
def Reads (action : Action α) : Prop := ∀ session, (outcome action session).2 = session

namespace Reads

theorem pure (a : α) : Reads (pure a) := fun _ => rfl

theorem bind {action : Action α} {next : α → Action β} (first : Reads action)
    (second : ∀ a, Reads (next a)) : Reads (action >>= next) := by
  intro session
  rw [outcome_bind]
  cases ran : outcome action session with
  | mk result left =>
    have same := first session
    rw [ran] at same
    cases result with
    | error refusal => exact same
    | ok a =>
      subst same
      exact second a left

theorem locate (offset : Nat) : Reads (locate offset) := fun _ => rfl

theorem slice (start stop : Nat) : Reads (slice start stop) := fun _ => rfl

theorem checkLines (start stop : Position) : Reads (checkLines start stop) := by
  intro session
  rw [outcome_checkLines]

theorem cases {action : Action α} (reads : Reads action) (session : Session) :
    (∃ refusal, outcome action session = (.error refusal, session)) ∨
      ∃ a, outcome action session = (.ok a, session) := by
  have same := reads session
  cases ran : outcome action session with
  | mk result left =>
    rw [ran] at same
    subst same
    cases result with
    | error refusal => exact .inl ⟨refusal, rfl⟩
    | ok a => exact .inr ⟨a, rfl⟩

end Reads

/-- Finds the operands at two source spans. -/
def readOperands (left right : Span) : Action (Operand × Operand) := do
  let leftStart ← locate left.start
  let leftStop ← locate left.stop
  let rightStart ← locate right.start
  let rightStop ← locate right.stop
  checkLines leftStart rightStop
  let leftText ← slice leftStart.offset leftStop.offset
  let rightText ← slice rightStart.offset rightStop.offset
  return (⟨left, leftStart.offset, leftStop.offset, leftText⟩,
    ⟨right, rightStart.offset, rightStop.offset, rightText⟩)

/-- The edits of a concatenation. -/
def mergeOperands (left right : Operand) : Action Unit := do
  let session ← get
  let quote := session.quoteFor left right
  match Grouping.enclosing? session.text.live left.start left.stop right.start right.stop with
  | none => replaceLive left.start right.stop (mergedLiteral quote left right)
  | some outer => mergeInPlace quote left right outer
  addFrame

/-- All that an operation does before its first edit, and with the edits as its result. -/
def prepare : Reduction → Action (Action Unit)
  | .replace range text => do
    let start ← locate range.start
    let stop ← locate range.stop
    checkLines start stop
    return do
      replaceLive start.offset stop.offset text.toList
      addFrame
  | .concatenate left right => do
    let (left, right) ← readOperands left right
    return mergeOperands left right

theorem concatenate_eq (left right : Span) :
    concatenate left right =
      readOperands left right >>= fun operands => mergeOperands operands.1 operands.2 := by
  simp only [concatenate, readOperands, bind_assoc, pure_bind]
  rfl

theorem consumer_eq_prepare (reduction : Reduction) :
    consumer reduction = prepare reduction >>= id := by
  cases reduction with
  | replace range text => simp only [consumer, replaceRange, prepare, bind_assoc, pure_bind, id]
  | concatenate left right =>
    simp only [consumer, concatenate_eq, prepare, bind_assoc, pure_bind, id]

theorem Reads.readOperands (left right : Span) : Reads (readOperands left right) :=
  (locate _).bind fun _ => (locate _).bind fun _ => (locate _).bind fun _ =>
    (locate _).bind fun _ => (checkLines _ _).bind fun _ => (slice _ _).bind fun _ =>
    (slice _ _).bind fun _ => pure _

theorem Reads.prepare (reduction : Reduction) : Reads (prepare reduction) := by
  cases reduction with
  | replace range text =>
    exact (locate _).bind fun _ => (locate _).bind fun _ => (checkLines _ _).bind fun _ => pure _
  | concatenate left right => exact (readOperands _ _).bind fun _ => pure _

theorem outcome_locate_eq_ok {offset : Nat} {p : Position} {left : Session}
    (found : outcome (locate offset) session = (.ok p, left)) :
    left = session ∧ offset ≤ session.text.source.length ∧
      p.offset = session.text.place offset ∧ session.text.locate offset = .ok p := by
  rw [outcome_locate] at found
  cases looked : session.text.locate offset with
  | error e =>
    rw [looked] at found
    cases found
  | ok q =>
    rw [looked] at found
    cases found
    refine ⟨rfl, ?_, LiveText.offset_of_locate looked, rfl⟩
    apply Nat.le_of_not_lt
    intro outside
    rw [LiveText.locate_eq_error outside] at looked
    contradiction

theorem outcome_slice_eq_ok {start stop : Nat} {text : List Char} {left : Session}
    (found : outcome (slice start stop) session = (.ok text, left)) :
    left = session ∧ session.text.slice start stop = .ok text := by
  rw [outcome_slice] at found
  cases cut : session.text.slice start stop with
  | error e =>
    rw [cut] at found
    cases found
  | ok middle =>
    rw [cut] at found
    cases found
    exact ⟨rfl, rfl⟩

theorem outcome_checkLines_eq_ok {start stop : Position} {left : Session}
    (checked : outcome (checkLines start stop) session = (.ok (), left)) :
    left = session ∧ (session.options.singleLine = true → start.line = stop.line) := by
  rw [outcome_checkLines] at checked
  split at checked
  · cases checked
  · rename_i allowed
    cases checked
    refine ⟨rfl, ?_⟩
    intro single
    exact Decidable.not_not.mp fun apart => allowed ⟨single, apart⟩

/-- Two operands as they were found, each within the live text. -/
structure Found (session : Session) (left right : Operand) : Prop where
  leftLocated : left.Located session.text
  rightLocated : right.Located session.text
  leftText : session.text.slice left.start left.stop = .ok left.text
  rightText : session.text.slice right.start right.stop = .ok right.text
  oneLine : session.options.singleLine = true →
    session.text.OneLine left.span.start right.span.stop

theorem readOperands_found {leftSpan rightSpan : Span} {left right : Operand}
    (read : outcome (readOperands leftSpan rightSpan) session = (.ok (left, right), session)) :
    left.span = leftSpan ∧ right.span = rightSpan ∧ Found session left right := by
  obtain ⟨leftStart, _, found₁, read⟩ := outcome_bind_eq_ok read
  obtain ⟨rfl, within₁, there₁, first⟩ := outcome_locate_eq_ok found₁
  obtain ⟨leftStop, _, found₂, read⟩ := outcome_bind_eq_ok read
  obtain ⟨rfl, within₂, there₂, -⟩ := outcome_locate_eq_ok found₂
  obtain ⟨rightStart, _, found₃, read⟩ := outcome_bind_eq_ok read
  obtain ⟨rfl, within₃, there₃, -⟩ := outcome_locate_eq_ok found₃
  obtain ⟨rightStop, _, found₄, read⟩ := outcome_bind_eq_ok read
  obtain ⟨rfl, within₄, there₄, last⟩ := outcome_locate_eq_ok found₄
  obtain ⟨_, _, checked, read⟩ := outcome_bind_eq_ok read
  obtain ⟨rfl, lines⟩ := outcome_checkLines_eq_ok checked
  obtain ⟨leftText, _, cut₁, read⟩ := outcome_bind_eq_ok read
  obtain ⟨rfl, leftSlice⟩ := outcome_slice_eq_ok cut₁
  obtain ⟨rightText, _, cut₂, read⟩ := outcome_bind_eq_ok read
  obtain ⟨rfl, rightSlice⟩ := outcome_slice_eq_ok cut₂
  cases read
  exact ⟨rfl, rfl, ⟨within₁, within₂, there₁, there₂⟩, ⟨within₃, within₄, there₃, there₄⟩,
    leftSlice, rightSlice, fun single => ⟨_, _, first, last, lines single⟩⟩

end Redex.Session
