import Redex.Text.Position

/-! One edit of a text: an insertion or a removal at a position of the text as
it was before. `carry` takes a position across an edit. What stands at or
before the edit keeps its place, so text inserted at a position comes after it;
what was removed leaves only the place where it began. -/
namespace Redex

inductive Edit where
  | insert (start : Position) (text : List Char)
  | remove (start : Position) (text : List Char)
  deriving DecidableEq

namespace Edit

def start : Edit → Position
  | .insert start _ => start
  | .remove start _ => start

/-- The edit that takes this one back. -/
def inverse : Edit → Edit
  | .insert start text => .remove start text
  | .remove start text => .insert start text

/-- Where a position of the text before the edit is in the text after it. A
position on the line of an insertion, or on the line where a removal ends, keeps
its distance in columns from that place; one on a later line keeps its column. -/
def carry : Edit → Position → Position
  | .insert start text, p =>
    if p.offset ≤ start.offset then p
    else if p.line = start.line then
      let stop := start.past text
      ⟨p.offset + text.length, stop.line, stop.column + (p.column - start.column)⟩
    else ⟨p.offset + text.length, p.line + text.count '\n', p.column⟩
  | .remove start text, p =>
    let stop := start.past text
    if p.offset ≤ start.offset then p
    else if p.offset ≤ stop.offset then start
    else if p.line = stop.line then
      ⟨p.offset - (stop.offset - start.offset), start.line, start.column + (p.column - stop.column)⟩
    else ⟨p.offset - (stop.offset - start.offset), p.line - (stop.line - start.line), p.column⟩

theorem inverse_inverse (edit : Edit) : edit.inverse.inverse = edit := by
  cases edit <;> rfl

theorem start_inverse (edit : Edit) : edit.inverse.start = edit.start := by
  cases edit <;> rfl

theorem carry_of_le (edit : Edit) {p : Position} (before : p.offset ≤ edit.start.offset) :
    edit.carry p = p := by
  cases edit <;> simp only [start] at before <;> simp [carry, before]

end Edit
end Redex
