import Redex.Text.Edit

/-! Carrying a position across an edit when both come from outside and need not
belong to any text. Counters are then 64-bit words, and every sum and difference
is taken modulo 2^64. On positions of a real text nothing wraps and this is
`Edit.carry`. -/
namespace Redex

/-- The word that an integer leaves, its remainder by 2^64. -/
def wrapWord (n : Int) : Nat := (n % 0x10000000000000000).toNat

/-- A position whose counters are reduced to words. -/
def Position.wrap (offset line column : Int) : Position :=
  ⟨wrapWord offset, wrapWord line, wrapWord column⟩

/-- The position after `text`, in words. -/
def Position.pastWord (p : Position) (text : List Char) : Position :=
  let stop := p.past text
  Position.wrap stop.offset stop.line stop.column

/-- `Edit.carry` on words. -/
def Edit.carryWord : Edit → Position → Position
  | .insert start text, p =>
    if p.offset ≤ start.offset then p
    else if p.line = start.line then
      let stop := start.pastWord text
      .wrap (p.offset + text.length) stop.line (stop.column + (p.column - start.column : Int))
    else .wrap (p.offset + text.length) (p.line + text.count '\n') p.column
  | .remove start text, p =>
    let stop := start.pastWord text
    if p.offset ≤ start.offset then p
    else if p.offset ≤ stop.offset then start
    else
      let offset : Int := p.offset - (stop.offset - start.offset : Int)
      if p.line = stop.line then
        .wrap offset start.line (start.column + (p.column - stop.column : Int))
      else .wrap offset (p.line - (stop.line - start.line : Int)) p.column

theorem wrapWord_of_lt {n : Nat} (small : n < 0x10000000000000000) : wrapWord n = n := by
  unfold wrapWord
  omega

end Redex
