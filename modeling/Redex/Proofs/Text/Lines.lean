import Redex.Proofs.Text.Rewriting
import Redex.Text.Span

/-! Lines of a text in which one stretch changes. What is put in may be on one line
while what goes holds line feeds at either end. The line of a place counts the
line feeds ahead of it, so each place loses the line feeds that went ahead of it
and no others. -/
namespace Redex.LiveText

variable {t u : LiveText} {before opens middle closes old new rest : List Char}

theorem Sound.lines (sound : t.Sound) {offset : Nat} {p : Position}
    (found : t.locate offset = .ok p) :
    offset ≤ t.source.length ∧ p.offset = t.place offset ∧
      p.line = (t.live.take (t.place offset)).count '\n' := by
  have within : offset ≤ t.source.length := by
    apply Nat.le_of_not_lt
    intro outside
    rw [locate_eq_error outside] at found
    contradiction
  refine ⟨within, offset_of_locate found, ?_⟩
  rw [Except.ok.inj (found.symm.trans (sound.scan within)), Position.line_past]
  exact Nat.zero_add _

/-- Two source offsets are found on one line. -/
def OneLine (t : LiveText) (start stop : Nat) : Prop :=
  ∃ p q, t.locate start = .ok p ∧ t.locate stop = .ok q ∧ p.line = q.line

/-- What stands in the live text from the place of one offset to that of another. If the second
place is before the first, that is nothing. -/
def standing (t : LiveText) (range : Span) : List Char :=
  (t.live.take (t.place range.stop)).drop (t.place range.start)

theorem standing_eq {range : Span} (live : t.live = before ++ middle ++ rest)
    (first : t.place range.start = before.length)
    (last : t.place range.stop = (before ++ middle).length) : t.standing range = middle := by
  rw [standing, live, first, last, List.take_left, List.drop_left]

/-- Between two places on one line there is no line feed. -/
theorem OneLine.unbroken {start stop : Nat} (oneLine : t.OneLine start stop)
    (sound : t.Sound) : '\n' ∉ t.standing ⟨start, stop⟩ := by
  by_cases reversed : t.place stop ≤ t.place start
  · have nothing : t.standing ⟨start, stop⟩ = [] := by
      apply List.drop_eq_nil_of_le
      rw [List.length_take]
      exact Nat.le_trans (Nat.min_le_left _ _) reversed
    rw [nothing]
    exact List.not_mem_nil
  · obtain ⟨p, q, first, last, same⟩ := oneLine
    have firstLine := (sound.lines first).2.2
    have lastLine := (sound.lines last).2.2
    rw [take_eq_append_drop t.live (Nat.le_of_not_le reversed), List.count_append] at lastLine
    have none : ((t.live.take (t.place stop)).drop (t.place start)).count '\n' = 0 := by omega
    exact List.count_eq_zero.mp none

/-- Two places in order are on one line if there is no line feed between them. -/
theorem Sound.oneLine (sound : t.Sound) {range : Span} (startWithin : range.start ≤ t.source.length)
    (stopWithin : range.stop ≤ t.source.length)
    (ordered : t.place range.start ≤ t.place range.stop) (unbroken : '\n' ∉ t.standing range) :
    t.OneLine range.start range.stop := by
  obtain ⟨p, first, -⟩ := sound.found startWithin
  obtain ⟨q, last, -⟩ := sound.found stopWithin
  refine ⟨p, q, first, last, ?_⟩
  have none : (t.standing range).count '\n' = 0 := List.count_eq_zero.mpr unbroken
  rw [standing] at none
  rw [(sound.lines first).2.2, (sound.lines last).2.2, take_eq_append_drop t.live ordered,
    List.count_append, none, Nat.add_zero]

/-- The live text has as many lines as it had, and each offset is on the line it was on. -/
structure KeepsLines (t u : LiveText) : Prop where
  count : u.live.count '\n' = t.live.count '\n'
  line : ∀ {offset p}, t.locate offset = .ok p → ∃ q, u.locate offset = .ok q ∧ q.line = p.line

/-- The live text loses the line feeds of `opens`, which was at `start`, and those of `closes`,
which was at `stop`, and no others. The line of an offset is lower by those that were ahead of it. -/
structure LosesBreaks (t u : LiveText) (start : Nat) (opens : List Char) (stop : Nat)
    (closes : List Char) : Prop where
  count : u.live.count '\n' + (opens ++ closes).count '\n' = t.live.count '\n'
  line : ∀ {offset p}, t.locate offset = .ok p → ∃ q, u.locate offset = .ok q ∧
    q.line + (opens.take (p.offset - start) ++ closes.take (p.offset - stop)).count '\n' = p.line

theorem count_take_of_unbroken {text : List Char} (unbroken : '\n' ∉ text) (length : Nat) :
    (text.take length).count '\n' = 0 :=
  List.count_eq_zero.mpr fun member => unbroken (List.mem_of_mem_take member)

theorem LosesBreaks.keepsLines_iff {start stop : Nat}
    (loses : LosesBreaks t u start opens stop closes) :
    KeepsLines t u ↔ '\n' ∉ opens ++ closes := by
  constructor
  · intro keeps
    have lost := loses.count
    rw [keeps.count] at lost
    rw [← List.count_eq_zero]
    omega
  · intro unbroken
    refine ⟨?_, ?_⟩
    · rw [← loses.count, List.count_eq_zero.mpr unbroken, Nat.add_zero]
    · intro offset p found
      obtain ⟨q, found', line⟩ := loses.line found
      rw [List.mem_append, not_or] at unbroken
      rw [List.count_append, count_take_of_unbroken unbroken.1,
        count_take_of_unbroken unbroken.2] at line
      exact ⟨q, found', line⟩

namespace Changes

/-- How far a place is into what is around the stretch stays the same. -/
theorem outside (change : Changes t u before old new rest) (offset : Nat) :
    before.take (u.place offset) = before.take (t.place offset) ∧
      u.place offset - (before ++ new).length = t.place offset - (before ++ old).length := by
  by_cases early : t.place offset ≤ before.length
  · rw [change.ahead early, List.length_append, List.length_append]
    exact ⟨rfl, by omega⟩
  · have whole : before.take (t.place offset) = before :=
      List.take_of_length_le (Nat.le_of_not_le early)
    by_cases inner : t.place offset ≤ (before ++ old).length
    · obtain ⟨late, early⟩ := change.within (Nat.le_of_not_le early) inner
      rw [whole, List.take_of_length_le late]
      exact ⟨rfl, by omega⟩
    · obtain ⟨further, placed⟩ := Nat.exists_eq_add_of_le (Nat.le_of_not_le inner)
      have moved := change.beyond placed (by omega)
      rw [whole, List.take_of_length_le (by rw [moved, List.length_append]; omega)]
      exact ⟨rfl, by omega⟩

/-- Where the middle of a stretch and what is put in its place have no line feed, the line feeds
that are lost are those at either end of it. -/
theorem losesBreaks (change : Changes t u before (opens ++ middle ++ closes) new rest)
    (sound : t.Sound) (unbroken : '\n' ∉ middle) (clean : '\n' ∉ new) :
    LosesBreaks t u before.length opens (before ++ opens ++ middle).length closes := by
  constructor
  · rw [change.live, change.rewritten]
    simp only [List.count_append, List.count_eq_zero.mpr unbroken, List.count_eq_zero.mpr clean]
    omega
  · intro offset p found
    obtain ⟨within, there, line⟩ := sound.lines found
    obtain ⟨q, found', -⟩ := (change.sound sound).found (change.source.symm ▸ within)
    obtain ⟨-, -, line'⟩ := (change.sound sound).lines found'
    obtain ⟨front, back⟩ := change.outside offset
    refine ⟨q, found', ?_⟩
    rw [line, line', change.live, change.rewritten, there]
    simp only [List.append_assoc, List.take_append, List.count_append, List.length_append,
      count_take_of_unbroken unbroken, count_take_of_unbroken clean, ← Nat.sub_sub]
      at front back ⊢
    rw [front, back]
    omega

end Changes
end Redex.LiveText
