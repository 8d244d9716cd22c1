import Redex.Text.Blank

/-! The parentheses around the two operands of a sum, found by walking outwards
from the text between them. Each `)` before the `+` has to close a `(` before
the left operand, and each `(` after it has to be closed after the right one. -/
namespace Redex.Grouping

/-- Counts the `)` before and the `(` after the `+` that may stand between two
operands. Once the `+` or a `(` was seen, no `)` and no other `+` may follow. -/
def between? (seen : Bool) (closing opening : Nat) : List Char → Option (Nat × Nat)
  | [] => some (closing, opening)
  | c :: rest =>
    if c = ')' ∧ seen = false then between? seen (closing + 1) opening rest
    else if c = '+' ∧ seen = false then between? true closing opening rest
    else if c = '(' then between? true closing (opening + 1) rest
    else if isBlank c then between? seen closing opening rest
    else none

/-- The length of the shortest run that holds `count` of `paren` and else only blanks. -/
def reach? (paren : Char) : (count : Nat) → List Char → Option Nat
  | 0, _ => some 0
  | _ + 1, [] => none
  | count + 1, c :: rest =>
    if c = paren then (reach? paren count rest).map (· + 1)
    else if isBlank c then (reach? paren (count + 1) rest).map (· + 1)
    else none

/-- The live span from the outermost `(` before the left operand to the
outermost `)` after the right one, for operands that end at `leftStop` and begin
at `rightStart`. There is none when anything but parentheses, blanks and one `+`
stands between them, or when a parenthesis has no partner. -/
def enclosing? (live : List Char) (leftStart leftStop rightStart rightStop : Nat) :
    Option (Nat × Nat) :=
  if leftStop ≤ rightStart ∧ rightStart ≤ live.length then do
    let (closing, opening) ← between? false 0 0 ((live.take rightStart).drop leftStop)
    let before ← reach? '(' closing (live.take leftStart).reverse
    let after ← reach? ')' opening (live.drop rightStop)
    return (leftStart - before, rightStop + after)
  else none

end Redex.Grouping
