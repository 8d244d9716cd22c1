import Redex.Proofs.Session.Atomicity

/-! What an accepted operation does to the live text. A replacement changes what stands
at its range. A concatenation of operands in order changes one stretch: the two operands,
what is between them, and the parentheses beside them if it merges them where they
stand. In either case the change is known from the text that the operation was applied to. -/
namespace Redex.Session

variable {session final : Session} {left right : Operand}

/-- The operand at a source span, as the session finds it. -/
def operandAt (session : Session) (span : Span) : Operand where
  span := span
  start := session.text.place span.start
  stop := session.text.place span.stop
  text := session.text.standing span

/-- The live range around two operands that is taken in by the parentheses next to them. -/
def enclosed? (session : Session) (left right : Operand) : Option (Nat × Nat) :=
  Grouping.enclosing? session.text.live left.start left.stop right.start right.stop

/-- The live range that a concatenation of two operands changes. -/
def joinedRange (session : Session) (left right : Operand) : Nat × Nat :=
  (session.enclosed? left right).getD (left.start, right.stop)

/-- The literal that a concatenation of two operands puts there. -/
def joinedLiteral (session : Session) (left right : Operand) : List Char :=
  if (session.enclosed? left right).isSome then
    Operand.merged (session.quoteFor left right) left right
  else mergedLiteral (session.quoteFor left right) left right

theorem joinedRange_of_none (enclosed : session.enclosed? left right = none) :
    session.joinedRange left right = (left.start, right.stop) := by
  rw [joinedRange, enclosed, Option.getD_none]

theorem joinedRange_of_some {outer : Nat × Nat}
    (enclosed : session.enclosed? left right = some outer) :
    session.joinedRange left right = outer := by
  rw [joinedRange, enclosed, Option.getD_some]

theorem joinedLiteral_of_none (enclosed : session.enclosed? left right = none) :
    session.joinedLiteral left right =
      mergedLiteral (session.quoteFor left right) left right := by
  rw [joinedLiteral, enclosed, if_neg (by decide)]

theorem joinedLiteral_of_some {outer : Nat × Nat}
    (enclosed : session.enclosed? left right = some outer) :
    session.joinedLiteral left right =
      Operand.merged (session.quoteFor left right) left right := by
  rw [joinedLiteral, enclosed, if_pos (by rfl)]

/-- What is around and between two operands whose concatenation changes the live text, with the
changed stretch running from `opens` to `closes`. -/
structure Joint (session : Session) (left right : Operand)
    (before opens between closes rest : List Char) : Prop where
  apart : Operand.Apart session.text.live left right before opens between closes rest
  range : session.joinedRange left right =
    (before.length, (before ++ opens ++ left.text ++ between ++ right.text ++ closes).length)

namespace Joint

variable {before opens between closes rest : List Char}

theorem take_eq (joint : Joint session left right before opens between closes rest) :
    session.text.live.take (session.joinedRange left right).1 = before := by
  simp only [joint.range, joint.apart.text_eq, List.append_assoc, List.take_left]

theorem drop_eq (joint : Joint session left right before opens between closes rest) :
    session.text.live.drop (session.joinedRange left right).2 = rest := by
  rw [joint.range, joint.apart.text_eq, List.drop_left]

/-- The operands are in the stretch, and the stretch is in the live text. -/
theorem bounds (joint : Joint session left right before opens between closes rest) :
    (session.joinedRange left right).1 ≤ left.start ∧
      right.stop ≤ (session.joinedRange left right).2 ∧
      (session.joinedRange left right).2 ≤ session.text.live.length := by
  obtain ⟨live, leftStart, -, -, rightStop⟩ := joint.apart
  rw [joint.range, live, leftStart, rightStop]
  simp only [List.length_append]
  omega

/-- If the operands are not enclosed the stretch begins and ends with them. -/
theorem of_none (joint : Joint session left right before opens between closes rest)
    (enclosed : session.enclosed? left right = none) : opens = [] ∧ closes = [] := by
  have range := joint.range
  rw [joinedRange_of_none enclosed, Prod.mk.injEq, joint.apart.leftStart,
    joint.apart.rightStop] at range
  simp only [List.length_append] at range
  exact ⟨List.eq_nil_of_length_eq_zero (by omega), List.eq_nil_of_length_eq_zero (by omega)⟩

/-- If they are enclosed it takes in a partner for each parenthesis between them. -/
theorem of_some (joint : Joint session left right before opens between closes rest)
    (enclosed : (session.enclosed? left right).isSome) :
    Grouping.Encloses opens between closes := by
  obtain ⟨outer, found⟩ := Option.isSome_iff_exists.mp enclosed
  have range := joint.range
  rw [joinedRange_of_some found] at range
  rw [enclosed?, range, joint.apart.leftStart, joint.apart.leftStop, joint.apart.rightStart,
    joint.apart.rightStop] at found
  exact Grouping.enclosing?_eq_some joint.apart.text_eq found

/-- The stretch goes beyond the operands only over parentheses and blanks. -/
theorem wraps (joint : Joint session left right before opens between closes rest) :
    Grouping.Wraps '(' opens ∧ Grouping.Wraps ')' closes := by
  cases enclosed : session.enclosed? left right with
  | none =>
    obtain ⟨rfl, rfl⟩ := joint.of_none enclosed
    exact ⟨.nil, .nil⟩
  | some outer =>
    have encloses := joint.of_some (enclosed ▸ Option.isSome_some)
    exact ⟨encloses.opened, encloses.closed⟩

theorem range_eq {first second : Span} (joint : Joint session (session.operandAt first)
      (session.operandAt second) before opens between closes rest) :
    session.joinedRange (session.operandAt first) (session.operandAt second) =
      (before.length, (before ++ (opens ++ session.text.standing first ++ between ++
        session.text.standing second ++ closes)).length) :=
  joint.range.trans (by simp only [operandAt, List.append_assoc])

/-- From the start of one operand to the end of the other stand both and what is between. -/
theorem standing {first second : Span} (joint : Joint session (session.operandAt first)
      (session.operandAt second) before opens between closes rest) :
    session.text.standing ⟨first.start, second.stop⟩ =
      session.text.standing first ++ between ++ session.text.standing second := by
  obtain ⟨live, leftStart, -, -, rightStop⟩ := joint.apart
  have split : session.text.live = before ++ opens ++
      (session.text.standing first ++ between ++ session.text.standing second) ++
      (closes ++ rest) := by
    rw [live]
    simp only [operandAt, List.append_assoc]
  refine LiveText.standing_eq split ?_ ?_
  · exact leftStart
  · simpa only [operandAt, List.append_assoc] using rightStop

end Joint

theorem Operand.Located.eq_operandAt {operand : Operand} (located : operand.Located session.text)
    (cut : session.text.slice operand.start operand.stop = .ok operand.text) :
    operand = session.operandAt operand.span := by
  obtain ⟨before, rest, live, first, last⟩ := LiveText.slice_cases cut
  have text := LiveText.standing_eq live (located.start_eq.symm.trans first)
    (located.stop_eq.symm.trans last)
  cases operand
  simp only [operandAt, Operand.mk.injEq, true_and]
  exact ⟨located.start_eq, located.stop_eq, text.symm⟩

/-- The edits of a concatenation are one change. Where the operands are merged as they stand,
their parentheses go too; else the stretch ends where they do. The outer ends of the operands
come to be those of the literal, unless the right one is empty. -/
theorem mergeOperands_achieves (sound : session.text.Sound) (found : Found session left right)
    (ordered : left.stop ≤ right.start) :
    ∃ edited before opens between closes rest,
      outcome (mergeOperands left right) session = (.ok (), session.shown edited) ∧
      Joint session left right before opens between closes rest ∧
      session.text.Changes edited before
        (opens ++ left.text ++ between ++ right.text ++ closes)
        (session.joinedLiteral left right) rest ∧
      edited.place left.span.start = before.length ∧
      (right.text ≠ [] → ∀ {offset}, right.stop ≤ session.text.place offset →
        session.text.place offset ≤ (session.joinedRange left right).2 →
        edited.place offset = (before ++ session.joinedLiteral left right).length) := by
  cases enclosed : session.enclosed? left right with
  | none =>
    obtain ⟨before, opens, between, closes, rest, apart, first, last⟩ := found.around ordered
      (left.start, right.stop) (Nat.le_refl _) (Nat.le_refl _) (found.within sound).2
    have live : session.text.live = before ++
        (opens ++ left.text ++ between ++ right.text ++ closes) ++ rest := by
      rw [apart.text_eq]
      simp only [List.append_assoc]
    have whole : right.stop =
        (before ++ (opens ++ left.text ++ between ++ right.text ++ closes)).length := by
      simpa only [List.append_assoc] using last
    obtain ⟨edited, replaced⟩ := replaceLive_performs live first whole
      (mergedLiteral (session.quoteFor left right) left right)
    have starts := found.leftLocated.start_eq.symm.trans first
    refine ⟨edited, before, opens, between, closes, rest,
      outcome_mergeOperands_of_none enclosed replaced.ran, ⟨apart, ?_⟩, ?_, ?_, ?_⟩
    · rw [joinedRange_of_none enclosed]
      exact Prod.ext first last
    · rw [joinedLiteral_of_none enclosed]
      exact replaced.rewrites.changes
    · exact (replaced.rewrites.ahead (Nat.le_of_eq starts)).trans starts
    · intro filled offset late early
      rw [joinedRange_of_none enclosed] at early
      rw [joinedLiteral_of_none enclosed]
      apply replaced.rewrites.atEnd (.inl _) ((Nat.le_antisymm early late).trans whole)
      simp [filled]
  | some outer =>
    obtain ⟨before, opens, between, closes, rest, apart, first, last⟩ := found.apart sound enclosed
    obtain ⟨edited, merged, atStart, atStop⟩ := mergeInPlace_achieves outer sound
      found.leftLocated found.rightLocated apart (session.quoteFor_own left right) first last
    refine ⟨edited, before, opens, between, closes, rest,
      outcome_mergeOperands_of_some enclosed merged.ran, ⟨apart, ?_⟩, ?_, atStart, ?_⟩
    · rw [joinedRange_of_some enclosed]
      exact Prod.ext first last
    · rw [joinedLiteral_of_some enclosed]
      exact merged.changes
    · intro filled offset late early
      rw [joinedRange_of_some enclosed] at early
      rw [joinedLiteral_of_some enclosed]
      exact atStop filled late early

/-- What an accepted concatenation has found. -/
theorem concatenate_found {leftSpan rightSpan : Span}
    (accepted : outcome (concatenate leftSpan rightSpan) session = (.ok (), final)) :
    Found session (session.operandAt leftSpan) (session.operandAt rightSpan) ∧
      outcome (mergeOperands (session.operandAt leftSpan) (session.operandAt rightSpan)) session =
        (.ok (), final) := by
  rw [concatenate_eq] at accepted
  obtain ⟨⟨left, right⟩, _, read, merged⟩ := outcome_bind_eq_ok accepted
  obtain rfl := (congrArg Prod.snd read).symm.trans (Reads.readOperands _ _ _)
  obtain ⟨rfl, rfl, found⟩ := readOperands_found read
  rw [← found.leftLocated.eq_operandAt found.leftText,
    ← found.rightLocated.eq_operandAt found.rightText]
  exact ⟨found, merged⟩

/-- An accepted concatenation of operands in order is one change of the live text. -/
theorem concatenate_changes (sound : session.text.Sound) {leftSpan rightSpan : Span}
    (accepted : outcome (concatenate leftSpan rightSpan) session = (.ok (), final))
    (ordered : session.text.place leftSpan.stop ≤ session.text.place rightSpan.start) :
    ∃ before opens between closes rest,
      Joint session (session.operandAt leftSpan) (session.operandAt rightSpan)
        before opens between closes rest ∧
      session.text.Changes final.text before
        (opens ++ session.text.standing leftSpan ++ between ++ session.text.standing rightSpan ++
          closes)
        (session.joinedLiteral (session.operandAt leftSpan) (session.operandAt rightSpan)) rest ∧
      (session.options.singleLine = true →
        session.text.OneLine leftSpan.start rightSpan.stop) ∧
      final.text.place leftSpan.start = before.length ∧
      (session.text.standing rightSpan ≠ [] → ∀ {offset},
        session.text.place rightSpan.stop ≤ session.text.place offset →
        session.text.place offset ≤ (session.joinedRange (session.operandAt leftSpan)
          (session.operandAt rightSpan)).2 →
        final.text.place offset = (before ++ session.joinedLiteral (session.operandAt leftSpan)
          (session.operandAt rightSpan)).length) := by
  obtain ⟨found, merged⟩ := concatenate_found accepted
  obtain ⟨edited, before, opens, between, closes, rest, merged', joint, change, atStart, atStop⟩ :=
    mergeOperands_achieves sound found ordered
  obtain rfl : final = session.shown edited :=
    congrArg Prod.snd (merged.symm.trans merged')
  exact ⟨before, opens, between, closes, rest, joint, change, found.oneLine, atStart, atStop⟩

/-- An accepted replacement changes what stands at its range. If the range has come to be
reversed, nothing stands there, and the text is put in. -/
theorem replaceRange_changes (sound : session.text.Sound) {range : Span} {text : List Char}
    (accepted : outcome (replaceRange range text) session = (.ok (), final)) :
    ∃ before rest, session.text.place range.start = before.length ∧
      session.text.Changes final.text before (session.text.standing range) text rest ∧
      (session.options.singleLine = true → session.text.OneLine range.start range.stop) := by
  rw [replaceRange] at accepted
  obtain ⟨start, _, found₁, located⟩ := outcome_bind_eq_ok accepted
  obtain ⟨rfl, startWithin, startThere, first⟩ := outcome_locate_eq_ok found₁
  obtain ⟨stop, _, found₂, spanned⟩ := outcome_bind_eq_ok located
  obtain ⟨rfl, stopWithin, stopThere, last⟩ := outcome_locate_eq_ok found₂
  obtain ⟨_, _, checked, edits⟩ := outcome_bind_eq_ok spanned
  obtain ⟨rfl, lines⟩ := outcome_checkLines_eq_ok checked
  obtain ⟨edited, before, rest, there, replaced⟩ := replaceLive_rewrites
    (startThere ▸ sound.inside startWithin) (stopThere ▸ sound.inside stopWithin) text
  rw [outcome_addFrame_after replaced.ran] at edits
  cases edits
  rw [startThere, stopThere] at replaced
  exact ⟨before, rest, startThere.symm.trans there, replaced.rewrites.changes,
    fun single => ⟨start, stop, first, last, lines single⟩⟩

end Redex.Session
