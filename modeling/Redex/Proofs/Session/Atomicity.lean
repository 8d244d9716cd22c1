import Redex.Proofs.Session.Reachable
import Redex.Proofs.Session.Reading

/-! Operations are applied as a whole or not at all. An operation is refused
only while it reads; once that is done, each of its edits stays within the live
text, and none is refused. It does not matter whether the spans are in order,
overlap or are reversed, and what the operands hold. -/
namespace Redex.Session

variable {session : Session} {before rest : List Char} {left right : Operand}

/-- Where a range ends before it starts, the text is inserted and nothing is removed. -/
theorem replaceLive_reversed {start stop : Nat} (live : session.text.live = before ++ rest)
    (there : start = before.length) (reversed : stop ≤ start) (text : List Char) :
    ∃ edited, Performs (replaceLive start stop text) session edited before [] text rest := by
  have nothing : ¬ start + text.length < stop + text.length := by omega
  rw [replaceLive_eq, trim, if_neg nothing]
  simp only [bind_pure_unit]
  refine Performs.ite ?_ ?_ (by rw [List.append_nil, live])
  · intro _
    exact Performs.insert live there text
  · intro none
    exact (Decidable.not_not.mp none).symm

/-- A replacement within the live text puts the text in the place of what is between the two
offsets, which may be nothing. -/
theorem replaceLive_rewrites {start stop : Nat} (startWithin : start ≤ session.text.live.length)
    (stopWithin : stop ≤ session.text.live.length) (text : List Char) :
    ∃ edited before rest, start = before.length ∧
      Performs (replaceLive start stop text) session edited before
        ((session.text.live.take stop).drop start) text rest := by
  by_cases reversed : stop ≤ start
  · obtain ⟨before, rest, live, there⟩ := LiveText.exists_append_of_le startWithin
    obtain ⟨edited, replaced⟩ := replaceLive_reversed live there reversed text
    have nothing : (session.text.live.take stop).drop start = [] := by
      apply List.drop_eq_nil_of_le
      rwa [List.length_take_of_le stopWithin]
    rw [nothing]
    exact ⟨edited, before, rest, there, replaced⟩
  · have ordered := Nat.le_of_not_le reversed
    obtain ⟨before, rest, live, first, last⟩ :=
      LiveText.slice_cases (LiveText.slice_of_le ordered stopWithin)
    obtain ⟨edited, replaced⟩ := replaceLive_performs live first last text
    exact ⟨edited, before, rest, first, replaced⟩

namespace Found

theorem within (found : Found session left right) (sound : session.text.Sound) :
    left.start ≤ session.text.live.length ∧ right.stop ≤ session.text.live.length := by
  rw [found.leftLocated.start_eq, found.rightLocated.stop_eq]
  exact ⟨sound.inside found.leftLocated.startWithin, sound.inside found.rightLocated.stopWithin⟩

/-- Operands in order stand apart, and a span around them takes in what is next to them. -/
theorem around (found : Found session left right) (ordered : left.stop ≤ right.start)
    (outer : Nat × Nat) (first : outer.1 ≤ left.start) (last : right.stop ≤ outer.2)
    (inside : outer.2 ≤ session.text.live.length) :
    ∃ before opens between closes rest,
      Operand.Apart session.text.live left right before opens between closes rest ∧
      outer.1 = before.length ∧
      outer.2 = (before ++ opens ++ left.text ++ between ++ right.text ++ closes).length := by
  obtain ⟨ahead, behind, live, leftStart, leftStop⟩ := LiveText.slice_cases found.leftText
  obtain ⟨ahead', behind', live', rightStart, rightStop⟩ := LiveText.slice_cases found.rightText
  -- As the operands are in order, what is ahead of the right one takes in all of the left one.
  have leftFirst : ahead ++ left.text <+: session.text.live := ⟨behind, live.symm⟩
  have rightFirst : ahead' <+: session.text.live := by
    rw [live', List.append_assoc]
    exact List.prefix_append _ _
  obtain ⟨between, rfl⟩ := List.prefix_of_prefix_length_le leftFirst rightFirst (by omega)
  obtain ⟨before, opens, rfl, outerStart⟩ := LiveText.exists_append_of_le (leftStart ▸ first)
  have further : outer.2 - right.stop ≤ behind'.length := by
    have whole := congrArg List.length live'
    rw [List.length_append, ← rightStop] at whole
    omega
  obtain ⟨closes, rest, rfl, length⟩ := LiveText.exists_append_of_le further
  refine ⟨before, opens, between, closes, rest, ⟨?_, leftStart, leftStop, rightStart, rightStop⟩,
    outerStart, ?_⟩
  · rw [live']
    simp only [List.append_assoc]
  · rw [List.length_append, ← rightStop]
    omega

/-- Operands that are enclosed stand apart, and the enclosing span takes in what is next to them. -/
theorem apart (found : Found session left right) (sound : session.text.Sound) {outer : Nat × Nat}
    (enclosed : Grouping.enclosing? session.text.live left.start left.stop right.start right.stop =
      some outer) :
    ∃ before opens between closes rest,
      Operand.Apart session.text.live left right before opens between closes rest ∧
      outer.1 = before.length ∧
      outer.2 = (before ++ opens ++ left.text ++ between ++ right.text ++ closes).length := by
  obtain ⟨ordered, first, last, inside⟩ := Grouping.enclosing?_bounds enclosed
  exact found.around ordered outer first last (inside (found.within sound).2)

end Found

theorem outcome_addFrame_after {edit : Action Unit} {edited : LiveText}
    (ran : outcome edit session = (.ok (), { session with text := edited })) :
    outcome (edit >>= fun _ => addFrame) session = (.ok (), session.shown edited) := by
  rw [outcome_bind_of_ok ran, outcome_addFrame]
  rfl

theorem outcome_mergeOperands_of_none {edited : LiveText}
    (enclosed : Grouping.enclosing? session.text.live left.start left.stop right.start right.stop =
      none)
    (replaced : outcome (replaceLive left.start right.stop
        (mergedLiteral (session.quoteFor left right) left right)) session =
      (.ok (), { session with text := edited })) :
    outcome (mergeOperands left right) session = (.ok (), session.shown edited) := by
  rw [mergeOperands, outcome_bind_of_ok (outcome_get session)]
  simp only [enclosed]
  exact outcome_addFrame_after replaced

theorem outcome_mergeOperands_of_some {edited : LiveText} {outer : Nat × Nat}
    (enclosed : Grouping.enclosing? session.text.live left.start left.stop right.start right.stop =
      some outer)
    (merged : outcome (mergeInPlace (session.quoteFor left right) left right outer) session =
      (.ok (), { session with text := edited })) :
    outcome (mergeOperands left right) session = (.ok (), session.shown edited) := by
  rw [mergeOperands, outcome_bind_of_ok (outcome_get session)]
  simp only [enclosed]
  exact outcome_addFrame_after merged

/-- Once two operands are found, none of the edits that merge them is refused. -/
theorem mergeOperands_succeeds (sound : session.text.Sound) (found : Found session left right) :
    ∃ edited, outcome (mergeOperands left right) session = (.ok (), session.shown edited) := by
  cases enclosed : Grouping.enclosing? session.text.live left.start left.stop right.start
      right.stop with
  | none =>
    obtain ⟨startWithin, stopWithin⟩ := found.within sound
    obtain ⟨edited, _, _, -, replaced⟩ := replaceLive_rewrites startWithin stopWithin
      (mergedLiteral (session.quoteFor left right) left right)
    exact ⟨edited, outcome_mergeOperands_of_none enclosed replaced.ran⟩
  | some outer =>
    obtain ⟨before, opens, between, closes, rest, apart, first, last⟩ := found.apart sound enclosed
    obtain ⟨edited, merged, -⟩ := mergeInPlace_achieves outer sound found.leftLocated
      found.rightLocated apart (session.quoteFor_own left right) first last
    exact ⟨edited, outcome_mergeOperands_of_some enclosed merged.ran⟩

theorem edits_succeed (sound : session.text.Sound) {reduction : Reduction} {edits : Action Unit}
    (prepared : outcome (prepare reduction) session = (.ok edits, session)) :
    ∃ edited, outcome edits session = (.ok (), session.shown edited) := by
  cases reduction with
  | replace range text =>
    obtain ⟨start, _, found₁, prepared⟩ := outcome_bind_eq_ok prepared
    obtain ⟨rfl, startWithin, startThere, -⟩ := outcome_locate_eq_ok found₁
    obtain ⟨stop, _, found₂, prepared⟩ := outcome_bind_eq_ok prepared
    obtain ⟨rfl, stopWithin, stopThere, -⟩ := outcome_locate_eq_ok found₂
    obtain ⟨_, _, checked, prepared⟩ := outcome_bind_eq_ok prepared
    obtain ⟨rfl, -⟩ := outcome_checkLines_eq_ok checked
    cases prepared
    obtain ⟨edited, _, _, -, replaced⟩ := replaceLive_rewrites
      (startThere ▸ sound.inside startWithin) (stopThere ▸ sound.inside stopWithin) text.toList
    exact ⟨edited, outcome_addFrame_after replaced.ran⟩
  | concatenate leftSpan rightSpan =>
    obtain ⟨⟨left, right⟩, _, read, prepared⟩ := outcome_bind_eq_ok prepared
    -- The operands were found in the session that the edits begin with.
    obtain rfl := (congrArg Prod.snd read).symm.trans (Reads.readOperands _ _ _)
    cases prepared
    obtain ⟨-, -, found⟩ := readOperands_found read
    exact mergeOperands_succeeds sound found

/-- Any operation on any session that comes about either is refused and leaves the session as it
was, or is accepted and adds one frame, which is the live text that it leaves. It reads first,
which edits nothing, and is refused then or not at all: whatever it has found, each of the edits
after that is accepted. -/
theorem operation_all_or_nothing (reachable : Reachable session) (reduction : Reduction) :
    (consumer reduction = prepare reduction >>= id ∧ Reads (prepare reduction)) ∧
    ((∃ refusal, outcome (prepare reduction) session = (.error refusal, session) ∧
        outcome (consumer reduction) session = (.error refusal, session)) ∨
      ∃ edits edited, outcome (prepare reduction) session = (.ok edits, session) ∧
        outcome edits session = (.ok (), session.shown edited) ∧
        outcome (consumer reduction) session = (.ok (), session.shown edited)) := by
  refine ⟨⟨consumer_eq_prepare reduction, .prepare reduction⟩, ?_⟩
  rw [consumer_eq_prepare]
  obtain ⟨refusal, refused⟩ | ⟨edits, prepared⟩ := (Reads.prepare reduction).cases session
  · exact .inl ⟨refusal, refused, outcome_bind_of_error refused id⟩
  · obtain ⟨edited, made⟩ := edits_succeed reachable.sound prepared
    exact .inr ⟨edits, edited, prepared, made, (outcome_bind_of_ok prepared id).trans made⟩

/-- An empty right operand, which an earlier replacement left behind. -/
theorem operation_all_or_nothing_on_empty_operand :
    let session := (outcome (consumer (.replace ⟨7, 8⟩ ""))
      (ofText ['\'', 'a', '\'', ' ', '+', ' ', '(', 'b', ')'] {})).2
    Reachable session ∧ ∃ edited,
      outcome (consumer (.concatenate ⟨0, 3⟩ ⟨7, 8⟩)) session = (.ok (), session.shown edited) ∧
        edited.live = ['\'', 'a', '\''] := by
  intro session
  have reachable : Reachable session := .apply (.ofText _ _) _
  refine ⟨reachable, ?_⟩
  obtain ⟨-, ⟨refusal, -, refused⟩ | ⟨edits, edited, -, -, accepted⟩⟩ :=
    operation_all_or_nothing reachable (.concatenate ⟨0, 3⟩ ⟨7, 8⟩)
  · have accepted : (outcome (consumer (.concatenate ⟨0, 3⟩ ⟨7, 8⟩)) session).1 = .ok () := by rfl
    rw [refused] at accepted
    contradiction
  · have live : (outcome (consumer (.concatenate ⟨0, 3⟩ ⟨7, 8⟩)) session).2.text.live =
        ['\'', 'a', '\''] := by rfl
    rw [accepted] at live
    exact ⟨edited, accepted, live⟩

end Redex.Session
