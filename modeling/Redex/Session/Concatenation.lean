import Redex.Session.Basic
import Redex.Text.Grouping
import Redex.Text.Quoted

/-! Concatenating two operands of a session's source. Operands with nothing but
parentheses, blanks and a `+` between them are merged where they stand, their
parentheses being dropped; in all other cases both, and what is between them, are
replaced by one literal. -/
namespace Redex.Session

/-- An operand of a concatenation: its source span, and what it is in the live text. -/
structure Operand where
  span : Span
  start : Nat
  stop : Nat
  text : List Char

namespace Operand

def quote? (x : Operand) : Option Char := Quoted.quote? x.text

def contents (x : Operand) : List Char := Quoted.contents x.text

/-- How far its contents are from its ends. -/
def margin (x : Operand) : Nat := if x.quote?.isSome then 1 else 0

end Operand

/-- The literal that takes the place of two operands when they cannot be merged
where they stand. -/
def mergedLiteral (quote : Char) (left right : Operand) : List Char :=
  quote :: left.contents ++ Quoted.escape quote right.contents ++ [quote]

/-- Closes the merged literal at the end of the right operand. The last character
of an operand without quotes is replaced together with the quote, so that the
offset at the operand's end comes after the quote. -/
def closeLiteral (quote : Char) (right : Operand) : Action Unit :=
  match right.quote? with
  | some own => if own = quote then pure () else replaceLive (right.stop - 1) right.stop [quote]
  | none =>
    match right.text.getLast? with
    | some last => replaceLive (right.stop - 1) right.stop [last, quote]
    | none => insert right.stop [quote]

/-- Puts a backslash before each bare `quote` in a right operand that has quotes
of the other style. Nowhere else can there be one. -/
def escapeQuotes (quote : Char) (right : Operand) : Action Unit :=
  match right.quote? with
  | some own =>
    if own = quote then pure ()
    else (Quoted.bare quote right.contents).reverse.forM fun index =>
      insert (right.start + 1 + index) ['\\']
  | none => pure ()

/-- Merges two operands where they stand, within the live range `outer` that
takes in their parentheses. Edits go from right to left, so that each leaves the
live offsets before it alone. -/
def mergeInPlace (quote : Char) (left right : Operand) (outer : Nat × Nat) : Action Unit := do
  if right.stop < outer.2 then remove right.stop outer.2
  closeLiteral quote right
  escapeQuotes quote right
  let gapStart ← locate left.span.stop
  let gapStop ← locate right.span.start
  remove (gapStart.offset - left.margin) (gapStop.offset + right.margin)
  if outer.1 < left.start then remove outer.1 left.start
  if left.quote?.isNone then
    let start ← locate left.span.start
    insert start.offset [quote]

/-- Applies a concatenation of the operands at two source spans. The merged
literal has the quote of the left operand, else that of the right one. -/
def concatenate (left right : Span) : Action Unit := do
  let leftStart ← locate left.start
  let leftStop ← locate left.stop
  let rightStart ← locate right.start
  let rightStop ← locate right.stop
  checkLines leftStart rightStop
  let leftText ← slice leftStart.offset leftStop.offset
  let rightText ← slice rightStart.offset rightStop.offset
  let left : Operand := ⟨left, leftStart.offset, leftStop.offset, leftText⟩
  let right : Operand := ⟨right, rightStart.offset, rightStop.offset, rightText⟩
  let session ← get
  let quote := (left.quote?.or right.quote?).getD session.options.defaultQuote
  match Grouping.enclosing? session.text.live left.start left.stop right.start right.stop with
  | none => replaceLive left.start right.stop (mergedLiteral quote left right)
  | some outer => mergeInPlace quote left right outer
  addFrame

end Redex.Session
