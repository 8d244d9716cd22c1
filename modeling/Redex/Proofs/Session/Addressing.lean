import Redex.Proofs.Session.Joining

/-! Operations whose spans are in the source. Their lookups succeed, so an operation comes to
what its check of the lines and the texts of its operands come to. Where these are in order too,
nothing is refused. -/
namespace Redex

/-- The reduction has every end of its spans in a source of this length. -/
def Reduction.Within (length : Nat) : Reduction → Prop
  | .replace range _ => range.start ≤ length ∧ range.stop ≤ length
  | .concatenate left right =>
    (left.start ≤ length ∧ left.stop ≤ length) ∧ right.start ≤ length ∧ right.stop ≤ length

instance (length : Nat) : (reduction : Reduction) → Decidable (reduction.Within length)
  | .replace range _ => inferInstanceAs (Decidable (range.start ≤ length ∧ range.stop ≤ length))
  | .concatenate left right => inferInstanceAs (Decidable
      ((left.start ≤ length ∧ left.stop ≤ length) ∧ right.start ≤ length ∧ right.stop ≤ length))

/-- From where the reduction begins to where it ends. -/
def Reduction.reach : Reduction → Span
  | .replace range _ => range
  | .concatenate left right => ⟨left.start, right.stop⟩

namespace LiveText

variable {t u : LiveText} {before old new rest : List Char}

/-- The span ends before it starts. -/
def Reversed (t : LiveText) (span : Span) : Prop := t.place span.stop < t.place span.start

theorem oneLine_iff {start stop : Nat} {first last : Position}
    (begins : t.locate start = .ok first) (ends : t.locate stop = .ok last) :
    t.OneLine start stop ↔ first.line = last.line := by
  constructor
  · rintro ⟨p, q, here, there, same⟩
    obtain rfl := Except.ok.inj (begins.symm.trans here)
    obtain rfl := Except.ok.inj (ends.symm.trans there)
    exact same
  · intro same
    exact ⟨first, last, begins, ends, same⟩

theorem Rewrites.eq_take_drop (rewriting : Rewrites t u before old new rest) :
    u.live = t.live.take before.length ++ new ++ t.live.drop (before.length + old.length) := by
  rw [rewriting.rewritten, rewriting.live, ← List.length_append, List.drop_left,
    List.append_assoc before old, List.take_left]

end LiveText

namespace Session

variable {session : Session} {left right : Span} {reduction : Reduction}

/-- The session accepts an operation from the one end of the span to the other. -/
def Allows (session : Session) (reach : Span) : Prop :=
  session.options.singleLine = true → session.text.OneLine reach.start reach.stop

section
variable {reach : Span} {first last : Position}

theorem outcome_checkLines_of_allows (allowed : session.Allows reach)
    (begins : session.text.locate reach.start = .ok first)
    (ends : session.text.locate reach.stop = .ok last) :
    outcome (checkLines first last) session = (.ok (), session) := by
  rw [outcome_checkLines, if_neg]
  rintro ⟨single, apart⟩
  exact apart ((LiveText.oneLine_iff begins ends).mp (allowed single))

theorem outcome_checkLines_of_not_allows (refused : ¬ session.Allows reach)
    (begins : session.text.locate reach.start = .ok first)
    (ends : session.text.locate reach.stop = .ok last) :
    first.line ≠ last.line ∧
      outcome (checkLines first last) session =
        (.error (.spansLines first.line last.line), session) := by
  rw [Allows, LiveText.oneLine_iff begins ends, Classical.not_imp] at refused
  refine ⟨refused.2, ?_⟩
  rw [outcome_checkLines, if_pos refused]

end

/-- After the lookups, an operation looks at the lines and takes the text of its operands. -/
theorem outcome_prepare_replace (sound : session.text.Sound) {range : Span} {text : String}
    (within : (Reduction.replace range text).Within session.text.source.length) :
    ∃ first last, session.text.locate range.start = .ok first ∧
      session.text.locate range.stop = .ok last ∧
      outcome (prepare (.replace range text)) session =
        outcome (do
          checkLines first last
          return do
            replaceLive (session.text.place range.start) (session.text.place range.stop) text.toList
            addFrame) session := by
  obtain ⟨first, begins, start⟩ := sound.found within.1
  obtain ⟨last, ends, stop⟩ := sound.found within.2
  refine ⟨first, last, begins, ends, ?_⟩
  rw [prepare, outcome_bind_of_ok (outcome_locate_of_eq begins),
    outcome_bind_of_ok (outcome_locate_of_eq ends), start, stop]

theorem outcome_readOperands (sound : session.text.Sound)
    (within : (Reduction.concatenate left right).Within session.text.source.length) :
    ∃ first last, session.text.locate left.start = .ok first ∧
      session.text.locate right.stop = .ok last ∧
      outcome (readOperands left right) session =
        outcome (do
          checkLines first last
          let leftText ← slice (session.text.place left.start) (session.text.place left.stop)
          let rightText ← slice (session.text.place right.start) (session.text.place right.stop)
          return ({ session.operandAt left with text := leftText },
            { session.operandAt right with text := rightText })) session := by
  obtain ⟨⟨startsWithin, stopsWithin⟩, startsWithin', stopsWithin'⟩ := within
  obtain ⟨first, begins, leftStart⟩ := sound.found startsWithin
  obtain ⟨p, found, leftStop⟩ := sound.found stopsWithin
  obtain ⟨q, found', rightStart⟩ := sound.found startsWithin'
  obtain ⟨last, ends, rightStop⟩ := sound.found stopsWithin'
  refine ⟨first, last, begins, ends, ?_⟩
  rw [readOperands, outcome_bind_of_ok (outcome_locate_of_eq begins),
    outcome_bind_of_ok (outcome_locate_of_eq found),
    outcome_bind_of_ok (outcome_locate_of_eq found'),
    outcome_bind_of_ok (outcome_locate_of_eq ends), leftStart, leftStop, rightStart, rightStop]
  rfl

/-- Refused for its lines, whatever else is wrong with it. -/
theorem outcome_of_not_allows (sound : session.text.Sound)
    (within : reduction.Within session.text.source.length)
    (refused : ¬ session.Allows reduction.reach) :
    ∃ first last, first ≠ last ∧
      outcome (consumer reduction) session = (.error (.spansLines first last), session) := by
  rw [consumer_eq_prepare]
  cases reduction with
  | replace range text =>
    obtain ⟨first, last, begins, ends, prepared⟩ := outcome_prepare_replace sound within
    obtain ⟨apart, stopped⟩ := outcome_checkLines_of_not_allows refused begins ends
    refine ⟨first.line, last.line, apart, outcome_bind_of_error ?_ id⟩
    rw [prepared, outcome_bind_of_error stopped]
  | concatenate left right =>
    obtain ⟨first, last, begins, ends, read⟩ := outcome_readOperands sound within
    obtain ⟨apart, stopped⟩ := outcome_checkLines_of_not_allows refused begins ends
    refine ⟨first.line, last.line, apart, outcome_bind_of_error ?_ id⟩
    rw [prepare]
    refine outcome_bind_of_error ?_ _
    rw [read, outcome_bind_of_error stopped]

theorem outcome_slice_of_reversed {span : Span} (reversed : session.text.Reversed span) :
    outcome (slice (session.text.place span.start) (session.text.place span.stop)) session =
      (.error (.edit (.reversed (session.text.place span.start) (session.text.place span.stop))),
        session) := by
  have misplaced : session.text.place span.stop < session.text.place span.start := reversed
  rw [outcome_slice, LiveText.slice, LiveText.checkRange, if_pos misplaced]
  rfl

theorem outcome_slice_of_ordered (sound : session.text.Sound) {span : Span}
    (within : span.stop ≤ session.text.source.length) (ordered : ¬ session.text.Reversed span) :
    outcome (slice (session.text.place span.start) (session.text.place span.stop)) session =
      (.ok (session.text.standing span), session) := by
  rw [outcome_slice, LiveText.slice_of_le (Nat.le_of_not_lt ordered) (sound.inside within)]
  rfl

theorem readOperands_of_ordered (sound : session.text.Sound)
    (within : (Reduction.concatenate left right).Within session.text.source.length)
    (allowed : session.Allows ⟨left.start, right.stop⟩)
    (leftOrdered : ¬ session.text.Reversed left) (rightOrdered : ¬ session.text.Reversed right) :
    outcome (readOperands left right) session =
      (.ok (session.operandAt left, session.operandAt right), session) := by
  obtain ⟨first, last, begins, ends, read⟩ := outcome_readOperands sound within
  rw [read, outcome_bind_of_ok (outcome_checkLines_of_allows allowed begins ends),
    outcome_bind_of_ok (outcome_slice_of_ordered sound within.1.2 leftOrdered),
    outcome_bind_of_ok (outcome_slice_of_ordered sound within.2.2 rightOrdered)]
  rfl

/-- Operands in order are merged, wherever they stand and whatever they hold. -/
theorem outcome_of_ordered_operands (sound : session.text.Sound)
    (within : (Reduction.concatenate left right).Within session.text.source.length)
    (allowed : session.Allows ⟨left.start, right.stop⟩)
    (leftOrdered : ¬ session.text.Reversed left) (rightOrdered : ¬ session.text.Reversed right) :
    ∃ edited,
      outcome (consumer (.concatenate left right)) session = (.ok (), session.shown edited) := by
  have read := readOperands_of_ordered sound within allowed leftOrdered rightOrdered
  obtain ⟨-, -, found⟩ := readOperands_found read
  obtain ⟨edited, merged⟩ := mergeOperands_succeeds sound found
  refine ⟨edited, ?_⟩
  simp only [consumer, concatenate_eq]
  rw [outcome_bind_of_ok read]
  exact merged

/-- The text goes in at the start of the span and takes the place of what stands from there to the
end of the span, which is nothing if the span is reversed. -/
theorem replaceLive_at (sound : session.text.Sound) (span : Span)
    (startWithin : span.start ≤ session.text.source.length)
    (stopWithin : span.stop ≤ session.text.source.length) (text : List Char) :
    ∃ edited,
      outcome (replaceLive (session.text.place span.start) (session.text.place span.stop) text)
        session = (.ok (), { session with text := edited }) ∧
      edited.live = session.text.live.take (session.text.place span.start) ++ text ++
        session.text.live.drop
          (max (session.text.place span.start) (session.text.place span.stop)) := by
  have stopInside := sound.inside stopWithin
  obtain ⟨edited, before, rest, there, replaced⟩ :=
    replaceLive_rewrites (sound.inside startWithin) stopInside text
  refine ⟨edited, replaced.ran, ?_⟩
  have live := replaced.rewrites.eq_take_drop
  have length : before.length + ((session.text.live.take (session.text.place span.stop)).drop
      (session.text.place span.start)).length =
        max (session.text.place span.start) (session.text.place span.stop) := by
    rw [List.length_drop, List.length_take_of_le stopInside, ← there]
    omega
  rw [length, ← there] at live
  exact live

theorem outcome_of_allowed_replacement (sound : session.text.Sound) {range : Span} {text : String}
    (within : (Reduction.replace range text).Within session.text.source.length)
    (allowed : session.Allows range) :
    ∃ edited, outcome (consumer (.replace range text)) session = (.ok (), session.shown edited) ∧
      edited.live = session.text.live.take (session.text.place range.start) ++ text.toList ++
        session.text.live.drop
          (max (session.text.place range.start) (session.text.place range.stop)) := by
  obtain ⟨first, last, begins, ends, prepared⟩ := outcome_prepare_replace sound within
  obtain ⟨edited, replaced, live⟩ := replaceLive_at sound range within.1 within.2 text.toList
  refine ⟨edited, ?_, live⟩
  rw [outcome_bind_of_ok (outcome_checkLines_of_allows allowed begins ends)] at prepared
  rw [consumer_eq_prepare, outcome_bind_of_ok prepared]
  exact outcome_addFrame_after replaced

end Session
end Redex
