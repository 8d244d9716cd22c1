import Redex.Proofs.Session.Reachable
import Redex.Proofs.Session.Operations
import Redex.Proofs.Text.Delimiting

/-! Replacing a source range. Where the range is in order, in the source, and on one line if the
session is for single lines, the replacement succeeds and its text takes the place of what the
range delimits. If that was not empty, the range delimits the new text from then on. -/
namespace Redex.Session

variable {session : Session}

/-- A replacement of an ordered range of the source that does not fail the check of its lines
succeeds, and puts the text between what was ahead of the range and what was behind it. Lookups ahead
of the range stay, and those behind it move along. Unless nothing stood at the range, all that
was found in it or at its end is now found at the end of the text, so the range delimits the text, and
the ranges around it delimit what they did with the text in its place. -/
theorem replacement_takes_place (reachable : Reachable session) (range : Span) (text : String)
    (ordered : range.start ≤ range.stop) (addressable : range.stop < session.text.offsetCount)
    (oneLine : session.options.singleLine = true →
      session.text.OneLine range.start range.stop) :
    ∃ edited start stop,
      outcome (consumer (.replace range text)) session = (.ok (), session.shown edited) ∧
      session.text.Finds range.start start ∧ session.text.Finds range.stop stop ∧
      start ≤ stop ∧ stop ≤ session.text.live.length ∧
      edited.live = session.text.live.take start ++ text.toList ++ session.text.live.drop stop ∧
      session.text.Moves edited start stop text.toList.length ∧
      (start < stop →
        (∀ {offset place}, session.text.Finds offset place → start < place → place ≤ stop →
          edited.Finds offset (start + text.toList.length)) ∧
        edited.Delimits range text.toList ∧
        session.text.Substitutes edited range text.toList) := by
  have sound := reachable.sound
  have stopWithin : range.stop ≤ session.text.source.length := Nat.lt_succ_iff.mp addressable
  have startWithin := Nat.le_trans ordered stopWithin
  have places := session.text.place_mono ordered
  have fits := sound.inside stopWithin
  obtain ⟨before, rest, live, first, last⟩ :=
    LiveText.slice_cases (LiveText.slice_of_le places fits)
  generalize (session.text.live.take (session.text.place range.stop)).drop
    (session.text.place range.start) = old at live last
  obtain ⟨edited, ran, replaces⟩ := replaceRange_replaces range sound oneLine live startWithin
    stopWithin first last text.toList
  refine ⟨edited, before.length, (before ++ old).length, ran, ?_, ?_, ?_, ?_, ?_, ?_, ?_⟩
  · exact sound.finds_iff.mpr ⟨startWithin, first⟩
  · exact sound.finds_iff.mpr ⟨stopWithin, last⟩
  · exact first ▸ last ▸ places
  · exact last ▸ fits
  · rw [replaces.rewritten, live, List.drop_left, List.append_assoc before old, List.take_left]
  · exact replaces.changes.moves sound
  · intro some
    have filled : old ≠ [] := by
      rintro rfl
      simp at some
    refine ⟨?_, ?_, ?_⟩
    · exact fun found late early => replaces.finds_end sound found late early
    · exact replaces.delimits sound filled ordered stopWithin first last
    · exact replaces.substitutes sound filled ordered stopWithin first last

/-- The second operand of a sum was replaced before the sum is. The new text breaks a line, and the
parentheses around it stay where they are. -/
theorem replacement_takes_place_after_operand :
    let session := (outcome (consumer (.replace ⟨5, 6⟩ "42"))
      (ofText ['(', '1', ' ', '+', ' ', '2', ')', ';'] {})).2
    Reachable session ∧ 6 < session.text.offsetCount ∧
      (session.options.singleLine = true → session.text.OneLine 1 6) ∧
      ∃ edited, outcome (consumer (.replace ⟨1, 6⟩ "4\n3")) session = (.ok (), session.shown edited) ∧
        edited.live = ['(', '4', '\n', '3', ')', ';'] ∧ edited.Finds 5 4 ∧
        edited.Delimits ⟨1, 6⟩ ['4', '\n', '3'] ∧
        edited.Delimits ⟨0, 7⟩ ['(', '4', '\n', '3', ')'] := by
  intro session
  have reachable : Reachable session := .apply (.ofText _ _) _
  have addressable : 6 < session.text.offsetCount := by decide
  have oneLine : session.options.singleLine = true → session.text.OneLine 1 6 :=
    fun _ => ⟨⟨1, 0, 1⟩, ⟨7, 0, 7⟩, rfl, rfl, rfl⟩
  refine ⟨reachable, addressable, oneLine, ?_⟩
  have found {offset : Nat} (p : Position) (located : session.text.locate offset = .ok p) :
      session.text.Finds offset p.offset := ⟨p, located, rfl⟩
  obtain ⟨edited, start, stop, ran, first, last, -, -, live, -, settles⟩ :=
    replacement_takes_place reachable ⟨1, 6⟩ "4\n3" (by decide) addressable oneLine
  obtain rfl := first.unique (found ⟨1, 0, 1⟩ rfl)
  obtain rfl := last.unique (found ⟨7, 0, 7⟩ rfl)
  obtain ⟨ends, delimits, substitutes⟩ := settles (by decide)
  refine ⟨edited, ran, live.trans (by decide), ?_, delimits, ?_⟩
  · exact ends (found ⟨5, 0, 5⟩ rfl) (by decide) (by decide)
  · obtain ⟨front, old, back, ahead, -, behind, -, around⟩ :=
      substitutes ⟨0, 7⟩ (by decide) (by decide) (by decide)
    obtain rfl := ahead.unique ⟨0, 1, found ⟨0, 0, 0⟩ rfl, found ⟨1, 0, 1⟩ rfl, rfl⟩
    obtain rfl := behind.unique ⟨7, 8, found ⟨7, 0, 7⟩ rfl, found ⟨8, 0, 8⟩ rfl, rfl⟩
    exact around

end Redex.Session
