import Redex.Proofs.Session.Joining
import Redex.Proofs.Text.Balance

/-! Parentheses around what a concatenation joins. Operands that are merged where they stand lose
their parentheses in pairs, so what is left matches up if it did before. Operands that are replaced
whole lose what is between them and nothing else, and what is left still matches up only if as
many parentheses close between them as open there. -/
namespace Redex.Session

open Grouping (Matched)

variable {session final : Session} {left right : Span}

/-- The live text outside two operands. -/
def outside (session : Session) (left right : Span) : List Char :=
  session.text.live.take (session.text.place left.start) ++
    session.text.standing ⟨left.stop, right.start⟩ ++
    session.text.live.drop (session.text.place right.stop)

/-- The live text before and behind the stretch that a concatenation of two operands changes. -/
def kept (session : Session) (left right : Span) : List Char × List Char :=
  let range := session.joinedRange (session.operandAt left) (session.operandAt right)
  (session.text.live.take range.1, session.text.live.drop range.2)

namespace Joint

variable {before opens between closes rest : List Char}
  (joint : Joint session (session.operandAt left) (session.operandAt right)
    before opens between closes rest)

include joint

theorem kept_eq : session.kept left right = (before, rest) :=
  Prod.ext joint.take_eq joint.drop_eq

theorem between_eq : session.text.standing ⟨left.stop, right.start⟩ = between := by
  have split : session.text.live = before ++ opens ++ session.text.standing left ++ between ++
      (session.text.standing right ++ closes ++ rest) := by
    rw [joint.apart.text_eq]
    simp only [operandAt, List.append_assoc]
  exact LiveText.standing_eq split joint.apart.leftStop joint.apart.rightStart

theorem outside_eq :
    session.outside left right = before ++ (opens ++ between ++ closes) ++ rest := by
  obtain ⟨live, leftStart, -, -, rightStop⟩ := joint.apart
  simp only [operandAt] at live leftStart rightStop
  have ahead : session.text.live.take (session.text.place left.start) = before ++ opens := by
    rw [leftStart, live]
    simp only [List.append_assoc (before ++ opens), List.take_left]
  have behind : session.text.live.drop (session.text.place right.stop) = closes ++ rest := by
    rw [rightStop, live, List.append_assoc _ closes, List.drop_left]
  rw [outside, ahead, joint.between_eq, behind]
  simp only [List.append_assoc]

theorem matched_iff_of_some
    (enclosed : (session.enclosed? (session.operandAt left) (session.operandAt right)).isSome) :
    Matched (before ++ (opens ++ between ++ closes) ++ rest) ↔ Matched (before ++ rest) :=
  Grouping.matched_leave_out (joint.of_some enclosed).depth?_eq

theorem matched_iff_of_none
    (enclosed : session.enclosed? (session.operandAt left) (session.operandAt right) = none)
    (matched : Matched (before ++ (opens ++ between ++ closes) ++ rest)) :
    Matched (before ++ rest) ↔ between.count '(' = between.count ')' := by
  obtain ⟨rfl, rfl⟩ := joint.of_none enclosed
  rw [List.nil_append, List.append_nil] at matched
  exact matched.leave_out_iff

end Joint

/-- An accepted concatenation of operands in order puts a literal in the place of one stretch. If
the operands are merged where they stand, the parentheses around the literal match up just when
those outside the operands did. If they are replaced whole, those that matched up still do
if as many close between the operands as open there, and else they no longer do. -/
theorem concatenate_matched_iff (reachable : Reachable session)
    (accepted : outcome (consumer (.concatenate left right)) session = (.ok (), final))
    (ordered : session.text.place left.stop ≤ session.text.place right.start) :
    let merged := (session.enclosed? (session.operandAt left) (session.operandAt right)).isSome
    let between := session.text.standing ⟨left.stop, right.start⟩
    let (before, rest) := session.kept left right
    final.text.live = before ++
        session.joinedLiteral (session.operandAt left) (session.operandAt right) ++ rest ∧
      (merged → (Matched (session.outside left right) ↔ Matched (before ++ rest))) ∧
      (Matched (session.outside left right) →
        (Matched (before ++ rest) ↔ merged ∨ between.count '(' = between.count ')')) := by
  obtain ⟨before, opens, between, closes, rest, joint, change, -⟩ :=
    concatenate_changes reachable.sound accepted ordered
  simp only [joint.kept_eq, joint.outside_eq, joint.between_eq]
  refine ⟨change.rewritten, joint.matched_iff_of_some, ?_⟩
  intro matched
  cases enclosed : session.enclosed? (session.operandAt left) (session.operandAt right) with
  | none =>
    simp only [Option.isSome_none, Bool.false_eq_true, false_or]
    exact joint.matched_iff_of_none enclosed matched
  | some outer =>
    simp only [Option.isSome_some, true_or, iff_true]
    exact (joint.matched_iff_of_some (enclosed ▸ rfl)).mp matched

/-- Both operands in parentheses of their own, within those of a call. -/
theorem concatenate_matched_iff_of_wrapped :
    let session := ofText ['f', '(', '(', '\'', 'a', '\'', ')', ' ', '+', ' ', '(', '\'', 'b', '\'',
      ')', ')'] {}
    let final := (outcome (consumer (.concatenate ⟨3, 6⟩ ⟨11, 14⟩)) session).2
    Reachable session ∧
    outcome (consumer (.concatenate ⟨3, 6⟩ ⟨11, 14⟩)) session = (.ok (), final) ∧
    session.text.place 6 ≤ session.text.place 11 ∧
    Matched (session.outside ⟨3, 6⟩ ⟨11, 14⟩) ∧
    session.kept ⟨3, 6⟩ ⟨11, 14⟩ = (['f', '('], [')']) ∧ Matched (['f', '('] ++ [')']) := by
  intro session final
  have reachable : Reachable session := .ofText _ _
  have accepted : outcome (consumer (.concatenate ⟨3, 6⟩ ⟨11, 14⟩)) session = (.ok (), final) :=
    outcome_eq_of_ok (by rfl)
  have ordered : session.text.place 6 ≤ session.text.place 11 := by decide
  have matched : Matched (session.outside ⟨3, 6⟩ ⟨11, 14⟩) := by decide +kernel
  have kept : session.kept ⟨3, 6⟩ ⟨11, 14⟩ = (['f', '('], [')']) := by decide +kernel
  have merged := (concatenate_matched_iff reachable accepted ordered).2.1 (by rfl)
  exact ⟨reachable, accepted, ordered, matched, kept, merged.mp matched⟩

/-- A comment behind a parenthesis lets the operands be replaced whole. The parenthesis goes with
what is between them, but its partner is ahead of the left operand and stays. -/
theorem concatenate_parts_parentheses :
    let session := ofText ['(', '\'', 'a', '\'', ')', ' ', '/', '*', ' ', 'c', ' ', '*', '/', ' ',
      '+', ' ', '\'', 'b', '\''] {}
    let final := (outcome (consumer (.concatenate ⟨1, 4⟩ ⟨16, 19⟩)) session).2
    Reachable session ∧
    (session.text.place 1 ≤ session.text.place 4 ∧ session.text.place 4 ≤ session.text.place 16 ∧
      session.text.place 16 ≤ session.text.place 19) ∧
    outcome (consumer (.concatenate ⟨1, 4⟩ ⟨16, 19⟩)) session = (.ok (), final) ∧
    Matched (session.outside ⟨1, 4⟩ ⟨16, 19⟩) ∧ session.kept ⟨1, 4⟩ ⟨16, 19⟩ = (['('], []) ∧
    final.text.live = ['('] ++ ['\'', 'a', 'b', '\''] ++ [] ∧ ¬ Matched (['('] ++ []) := by
  intro session final
  refine ⟨.ofText _ _, by decide, outcome_eq_of_ok (by rfl), ?_, ?_, ?_, by decide⟩
  all_goals decide +kernel

end Redex.Session
