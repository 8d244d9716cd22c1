import Mathlib.Data.List.Induction
import Mathlib.Data.List.TakeWhile
import Mathlib.Data.Prod.Lex
import Mathlib.Order.Interval.Set.Defs
import Mathlib.Order.Monotone.Basic
import Redex.Proofs.Text.Lookup

/-! Positions in closed form. Walking over a text, scanning its prefix and looking an offset up
before any edit are three ways to one position, whose line counts the line feeds ahead of the offset
and whose column counts the characters since the last of them. A walk that goes on ends further
down, or further along the same line, so offsets are in the order of their lines and columns. -/
namespace Redex.Position

/-- What stands after the last line feed of a text. Without a line feed that is all of it. -/
def lastLine (text : List Char) : List Char := (text.reverse.takeWhile (· ≠ '\n')).reverse

theorem lastLine_concat (text : List Char) (c : Char) :
    lastLine (text ++ [c]) = if c = '\n' then [] else lastLine text ++ [c] := by
  simp only [lastLine, List.reverse_append, List.reverse_singleton, List.singleton_append,
    List.takeWhile_cons, decide_eq_true_eq]
  by_cases feed : c = '\n'
  · simp only [feed, ne_eq, not_true, if_false, if_true, List.reverse_nil]
  · simp only [feed, ne_eq, not_false_eq_true, if_true, if_false, List.reverse_cons]

theorem lastLine_of_unbroken {text : List Char} (unbroken : '\n' ∉ text) :
    lastLine text = text := by
  have solid : ∀ c ∈ text.reverse, decide (c ≠ '\n') = true := by
    intro c member
    rw [decide_eq_true_eq]
    rintro rfl
    exact unbroken (List.mem_reverse.mp member)
  rw [lastLine, List.takeWhile_eq_self_iff.mpr solid, List.reverse_reverse]

theorem column_origin_past (text : List Char) :
    (origin.past text).column = (lastLine text).length := by
  induction text using List.reverseRecOn with
  | nil => rfl
  | append_singleton text c ih =>
    rw [past_append, past_cons, past_nil, lastLine_concat, step]
    split
    · rfl
    · rw [List.length_append, ← ih]
      rfl

theorem origin_past_eq (text : List Char) :
    origin.past text = ⟨text.length, text.count '\n', (lastLine text).length⟩ := by
  rw [← column_origin_past, ← offset_origin_past text]
  have line := line_past origin text
  rw [show origin.line = 0 from rfl, Nat.zero_add] at line
  rw [← line]

/-- Where a position is on the page, for comparison by lines first. -/
def page (p : Position) : Nat ×ₗ Nat := toLex (p.line, p.column)

theorem page_lt_past (p : Position) {walked : List Char} (moved : walked ≠ []) :
    p.page < (p.past walked).page := by
  rw [page, page, Prod.Lex.toLex_lt_toLex]
  by_cases broken : '\n' ∈ walked
  · -- Past a line feed the column starts over, and only the line tells.
    have feeds := List.count_pos_iff.mpr broken
    left
    rw [line_past]
    omega
  · have length := List.length_pos_iff.mpr moved
    right
    rw [past_of_unbroken p broken]
    exact ⟨rfl, Nat.lt_add_of_pos_right length⟩

theorem strictMonoOn_page (text : List Char) :
    StrictMonoOn (fun offset => (origin.past (text.take offset)).page) (Set.Iic text.length) := by
  intro first _ second inside later
  obtain ⟨length, rfl⟩ := Nat.exists_eq_add_of_le (Nat.le_of_lt later)
  have moved : (text.drop first).take length ≠ [] := by
    rw [Set.mem_Iic] at inside
    rw [← List.length_pos_iff, List.length_take, List.length_drop]
    omega
  show (origin.past (text.take first)).page < (origin.past (text.take (first + length))).page
  rw [List.take_add, past_append]
  exact page_lt_past _ moved

theorem at?_eq_none_iff {text : List Char} {offset : Nat} :
    at? text offset = none ↔ text.length < offset := by
  rw [at?_eq, ite_eq_right_iff]
  simp only [reduceCtorEq, imp_false, Nat.not_le]

theorem at?_eq_some_iff {text : List Char} {offset : Nat} {p : Position} :
    at? text offset = some p ↔ offset ≤ text.length ∧ p = origin.past (text.take offset) := by
  rw [at?_eq]
  split
  · rename_i inside
    simp only [inside, true_and, Option.some.injEq, eq_comm]
  · rename_i outside
    simp only [outside, false_and, reduceCtorEq]

end Redex.Position

namespace Redex.LiveText

theorem positionAt_eq (t : LiveText) (offset : Nat) :
    t.positionAt offset = (Position.at? t.live offset).elim
      (.error (.liveOffset offset t.live.length)) .ok := by
  rw [positionAt, Position.at?_eq]
  split <;> rfl

/-- As long as nothing was edited, a lookup scans the source. -/
theorem locate_of_unedited {t : LiveText} (unedited : t.log = []) (offset : Nat) :
    t.locate offset = (Position.at? t.source offset).elim
      (.error (.sourceOffset offset t.offsetCount)) .ok := by
  by_cases inside : offset ≤ t.source.length
  · rw [locate_eq inside, Position.at?_eq, if_pos inside, unedited]
    rfl
  · rw [locate_eq_error (Nat.lt_of_not_le inside), Position.at?_eq, if_neg inside]
    rfl

end Redex.LiveText

namespace Redex.Position

/-- A scan finds every offset up to the end of a text, and no other. The line of what it finds
counts the line feeds ahead of the offset, and the column the characters since the last of them,
or all of them if there is none. Scanning a prefix of a live text comes to the same, as does looking
an offset of the source up before any edit. Of two offsets the one with the earlier line, or with
the earlier column on one line, is the lower one. -/
theorem scans_agree :
    (∀ (text : List Char) (offset : Nat),
      (at? text offset = none ↔ text.length < offset) ∧
      ∀ p, at? text offset = some p →
        p = ⟨offset, (text.take offset).count '\n', (lastLine (text.take offset)).length⟩ ∧
        ('\n' ∉ text.take offset → p.column = offset)) ∧
    (∀ (t : LiveText) (offset : Nat),
      t.positionAt offset =
        (at? t.live offset).elim (.error (.liveOffset offset t.live.length)) .ok ∧
      (t.log = [] → t.locate offset =
        (at? t.source offset).elim (.error (.sourceOffset offset t.offsetCount)) .ok)) ∧
    ∀ (text : List Char) (first second : Nat) (p q : Position),
      at? text first = some p → at? text second = some q →
      (first < second ↔ toLex (p.line, p.column) < toLex (q.line, q.column)) := by
  refine ⟨?_, ?_, ?_⟩
  · intro text offset
    refine ⟨at?_eq_none_iff, ?_⟩
    intro p found
    obtain ⟨inside, rfl⟩ := at?_eq_some_iff.mp found
    have length := List.length_take_of_le inside
    refine ⟨?_, ?_⟩
    · rw [origin_past_eq, length]
    · intro unbroken
      rw [column_origin_past, lastLine_of_unbroken unbroken, length]
  · intro t offset
    exact ⟨t.positionAt_eq offset, fun unedited => LiveText.locate_of_unedited unedited offset⟩
  · intro text first second p q found₁ found₂
    obtain ⟨inside₁, rfl⟩ := at?_eq_some_iff.mp found₁
    obtain ⟨inside₂, rfl⟩ := at?_eq_some_iff.mp found₂
    exact ((strictMonoOn_page text).lt_iff_lt inside₁ inside₂).symm

/-- The second offset is one line further down and in an earlier column. Two calls were refused, so
nothing was edited. -/
theorem scans_agree_across_lines :
    let text := ['a', 'b', '\n', 'c', '\n', '\n', 'd']
    let t := (LiveText.ofText text).run [.insert 8 ['x'], .remove 2 1]
    let p : Position := ⟨2, 0, 2⟩
    let q : Position := ⟨4, 1, 1⟩
    let r : Position := ⟨5, 2, 0⟩
    (at? text 2 = some p ∧ '\n' ∉ text.take 2 ∧ p.column = 2) ∧
    (at? text 4 = some q ∧ at? text 5 = some r ∧
      (4 < 5 ↔ toLex (q.line, q.column) < toLex (r.line, r.column))) ∧
    t.positionAt 4 = .ok q ∧
    t.log = [] ∧ t.locate 5 = .ok r ∧ t.locate 8 = .error (.sourceOffset 8 8) := by
  intro text t p q r
  obtain ⟨closed, agree, ordered⟩ := scans_agree
  have first : at? text 2 = some p := by decide
  have second : at? text 4 = some q := by decide
  have third : at? text 5 = some r := by decide
  have unbroken : '\n' ∉ text.take 2 := by decide
  have unedited : t.log = [] := by decide
  exact ⟨⟨first, unbroken, ((closed text 2).2 p first).2 unbroken⟩,
    ⟨second, third, ordered text 4 5 q r second third⟩, (agree t 4).1, unedited,
    (agree t 5).2 unedited, (agree t 8).2 unedited⟩

end Redex.Position
