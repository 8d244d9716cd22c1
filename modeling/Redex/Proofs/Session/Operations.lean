import Redex.Proofs.Session.Merging
import Redex.Proofs.Text.Enclosing
import Redex.Proofs.Text.Lines

/-! The two operations of a session where they are meant to be used: on spans
that are in order in the live text, and on one line if the session is for single
lines. Both succeed, and what they do is one rewriting of the live text, after
which a frame is added. -/
namespace Redex.Session

variable {session : Session} {before rest : List Char}

/-- Whether all of the live text may be touched at once. -/
def Unbroken (session : Session) : Prop :=
  session.options.singleLine = true → '\n' ∉ session.text.live

/-- The session after an operation that leaves this text. -/
def shown (session : Session) (edited : LiveText) : Session :=
  { session with text := edited, frames := session.frames ++ [edited.live] }

theorem Unbroken.checkLines (unbroken : session.Unbroken) {start stop : Position}
    (startLine : start.line = (session.text.live.take start.offset).count '\n')
    (stopLine : stop.line = (session.text.live.take stop.offset).count '\n') :
    outcome (checkLines start stop) session = (.ok (), session) := by
  rw [outcome_checkLines, if_neg]
  rintro ⟨single, apart⟩
  have none (offset : Nat) : (session.text.live.take offset).count '\n' = 0 :=
    List.count_eq_zero.mpr fun member => unbroken single (List.mem_of_mem_take member)
  exact apart (by rw [startLine, stopLine, none, none])

theorem Unbroken.rewrites {next : Session} {old new : List Char} (unbroken : session.Unbroken)
    (rewrites : session.text.Rewrites next.text before old new rest)
    (options : next.options = session.options) (clean : '\n' ∉ old → '\n' ∉ new) :
    next.Unbroken := by
  intro single
  have none := unbroken (options ▸ single)
  rw [rewrites.live] at none
  rw [rewrites.rewritten]
  simp only [List.mem_append, not_or] at none ⊢
  exact ⟨⟨none.1.1, clean none.1.2⟩, none.2⟩

theorem Unbroken.oneLine (unbroken : session.Unbroken) (sound : session.text.Sound)
    {start stop : Nat} (startWithin : start ≤ session.text.source.length)
    (stopWithin : stop ≤ session.text.source.length) (single : session.options.singleLine = true) :
    session.text.OneLine start stop := by
  have first {offset : Nat} {p : Position} (found : session.text.locate offset = .ok p) :
      p.line = 0 := by
    rw [(sound.lines found).2.2, List.count_eq_zero]
    exact fun member => unbroken single (List.mem_of_mem_take member)
  obtain ⟨p, found, -⟩ := sound.found startWithin
  obtain ⟨q, found', -⟩ := sound.found stopWithin
  exact ⟨p, q, found, found', (first found).trans (first found').symm⟩

/-- A replacement of a range on one line succeeds, and puts the text in the place of what stands
there. -/
theorem replaceRange_replaces (range : Span) {old : List Char} (sound : session.text.Sound)
    (oneLine : session.options.singleLine = true → session.text.OneLine range.start range.stop)
    (live : session.text.live = before ++ old ++ rest)
    (startWithin : range.start ≤ session.text.source.length)
    (stopWithin : range.stop ≤ session.text.source.length)
    (first : session.text.place range.start = before.length)
    (last : session.text.place range.stop = (before ++ old).length) (text : List Char) :
    ∃ edited, outcome (replaceRange range text) session = (.ok (), session.shown edited) ∧
      session.text.Replaces edited before old text rest := by
  obtain ⟨start, foundStart, startThere⟩ := sound.found startWithin
  obtain ⟨stop, foundStop, stopThere⟩ := sound.found stopWithin
  have checked : outcome (checkLines start stop) session = (.ok (), session) := by
    rw [outcome_checkLines, if_neg]
    rintro ⟨single, apart⟩
    obtain ⟨p, q, found, found', same⟩ := oneLine single
    obtain rfl := Except.ok.inj (foundStart.symm.trans found)
    obtain rfl := Except.ok.inj (foundStop.symm.trans found')
    exact apart same
  obtain ⟨edited, ran, replaces⟩ := replaceLive_replaces live (startThere.trans first)
    (stopThere.trans last) text
  refine ⟨edited, ?_, replaces⟩
  rw [replaceRange, outcome_bind_of_ok (outcome_locate_of_eq foundStart),
    outcome_bind_of_ok (outcome_locate_of_eq foundStop), outcome_bind_of_ok checked,
    outcome_bind_of_ok ran, outcome_addFrame]
  rfl

/-- The quote that a merged literal gets. -/
def quoteFor (session : Session) (left right : Operand) : Char :=
  (left.quote?.or right.quote?).getD session.options.defaultQuote

theorem quoteFor_own (session : Session) (left right : Operand) :
    left.quote? = none ∨ left.quote? = some (session.quoteFor left right) := by
  cases quoted : left.quote? with
  | none => exact .inl rfl
  | some own => exact .inr (by rw [quoteFor, quoted]; rfl)

end Redex.Session
