import Redex.Text.Position

/-! Positions of a text from its characters. The line counts line feeds. The
column depends on where the walk began only as long as no line feed was passed,
and the three ways to a position agree at every offset. -/
namespace Redex.Position

theorem line_past (p : Position) (text : List Char) :
    (p.past text).line = p.line + text.count '\n' := by
  induction text generalizing p with
  | nil => rfl
  | cons c rest ih =>
    rw [past_cons, ih, List.count_cons]
    by_cases h : c = '\n'
    · simp only [step, h, if_true, beq_self_eq_true]
      omega
    · simp only [step, h, if_false, beq_iff_eq]
      omega

@[simp] theorem offset_origin_past (text : List Char) :
    (origin.past text).offset = text.length := by
  rw [offset_past]
  exact Nat.zero_add _

/-- On one line the column moves along with the offset. -/
theorem past_of_unbroken (p : Position) {text : List Char} (unbroken : '\n' ∉ text) :
    p.past text = ⟨p.offset + text.length, p.line, p.column + text.length⟩ := by
  induction text generalizing p with
  | nil => rfl
  | cons c rest ih =>
    simp only [List.mem_cons, not_or] at unbroken
    have same : c ≠ '\n' := fun h => unbroken.1 h.symm
    rw [past_cons, ih _ unbroken.2]
    simp only [step, same, if_false, List.length_cons, Position.mk.injEq, true_and]
    omega

/-- A line feed forgets the column before it. -/
theorem column_past_of_broken (p q : Position) {text : List Char} (broken : '\n' ∈ text) :
    (p.past text).column = (q.past text).column := by
  induction text generalizing p q with
  | nil => exact absurd broken List.not_mem_nil
  | cons c rest ih =>
    rw [past_cons, past_cons]
    by_cases later : '\n' ∈ rest
    · exact ih _ _ later
    · have here : c = '\n' := ((List.mem_cons.mp broken).resolve_right later).symm
      simp only [past_of_unbroken _ later, step, here, if_true]

/-- Once a line feed was passed, any walk over the same text ends in the same column. -/
theorem past_of_broken (p q : Position) {text : List Char} (broken : '\n' ∈ text) :
    p.past text = ⟨p.offset + text.length, p.line + text.count '\n', (q.past text).column⟩ := by
  rw [← offset_past, ← line_past, column_past_of_broken q p broken]

theorem walk?_eq (p : Position) (text : List Char) (count : Nat) :
    p.walk? text count = if count ≤ text.length then some (p.past (text.take count)) else none := by
  induction text generalizing p count with
  | nil => cases count <;> rfl
  | cons c rest ih =>
    cases count with
    | zero => rfl
    | succ count =>
      simp only [walk?, ih, List.length_cons, Nat.add_le_add_iff_right, List.take_succ_cons,
        past_cons]

theorem at?_eq (text : List Char) (offset : Nat) :
    at? text offset =
      if offset ≤ text.length then some (origin.past (text.take offset)) else none :=
  walk?_eq origin text offset

theorem getElem?_all (p : Position) (text : List Char) (offset : Nat) :
    (p.all text)[offset]? =
      if offset ≤ text.length then some (p.past (text.take offset)) else none := by
  induction text generalizing p offset with
  | nil => cases offset <;> rfl
  | cons c rest ih =>
    cases offset with
    | zero => rfl
    | succ offset =>
      simp only [all, List.getElem?_cons_succ, ih, List.length_cons, Nat.add_le_add_iff_right,
        List.take_succ_cons, past_cons]

end Redex.Position
