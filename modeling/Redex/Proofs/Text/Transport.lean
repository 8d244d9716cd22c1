import Redex.Proofs.Text.Position
import Redex.Text.Edit

/-! Carrying positions across an edit. A position after the edit is reached from
where the edit starts by walking over text that the edit leaves alone, so the
arithmetic of `Edit.carry` has to give what the same walk gives when it sets out
from the other end of the inserted or removed text. The offset alone is carried
by `Edit.shift`. -/
namespace Redex.Edit

/-- Where an offset goes, whatever line it is on. -/
def shift : Edit → Nat → Nat
  | .insert start text, offset => if offset ≤ start.offset then offset else offset + text.length
  | .remove start text, offset =>
    if offset ≤ start.offset then offset
    else if offset ≤ start.offset + text.length then start.offset
    else offset - text.length

theorem offset_carry (edit : Edit) (p : Position) :
    (edit.carry p).offset = edit.shift p.offset := by
  cases edit with
  | insert start text =>
    simp only [carry, shift]
    split
    · rfl
    · split <;> rfl
  | remove start text =>
    simp only [carry, shift, Position.offset_past]
    split
    · rfl
    · split
      · rfl
      · split <;> simp only <;> omega

theorem shift_mono (edit : Edit) {a b : Nat} (ordered : a ≤ b) : edit.shift a ≤ edit.shift b := by
  cases edit <;> simp only [shift] <;> grind

/-- Text after an insertion is walked over from the end of what was inserted. -/
theorem carry_insert_past (start : Position) (text : List Char) {walked : List Char}
    (moved : walked ≠ []) :
    (Edit.insert start text).carry (start.past walked) = (start.past text).past walked := by
  have further : ¬ (start.past walked).offset ≤ start.offset := by
    have := List.length_pos_iff.mpr moved
    rw [Position.offset_past]
    omega
  simp only [carry, further, if_false]
  by_cases broken : '\n' ∈ walked
  · have lines := List.count_pos_iff.mpr broken
    have below : ¬ (start.past walked).line = start.line := by
      rw [Position.line_past]
      omega
    rw [if_neg below, Position.past_of_broken (start.past text) start broken]
    simp only [Position.offset_past, Position.line_past, Position.mk.injEq, and_true]
    omega
  · simp only [Position.past_of_unbroken _ broken, if_true, Position.offset_past,
      Position.mk.injEq, true_and]
    omega

/-- Text after a removal is walked over from where the removal starts. -/
theorem carry_remove_past (start : Position) (removed : List Char) {walked : List Char}
    (moved : walked ≠ []) :
    (Edit.remove start removed).carry ((start.past removed).past walked) = start.past walked := by
  have length := List.length_pos_iff.mpr moved
  have beyond : ¬ ((start.past removed).past walked).offset ≤ (start.past removed).offset := by
    rw [Position.offset_past _ walked]
    omega
  have further : ¬ ((start.past removed).past walked).offset ≤ start.offset := by
    rw [Position.offset_past, Position.offset_past]
    omega
  simp only [carry, beyond, further, if_false]
  by_cases broken : '\n' ∈ walked
  · have lines := List.count_pos_iff.mpr broken
    have below : ¬ ((start.past removed).past walked).line = (start.past removed).line := by
      rw [Position.line_past _ walked]
      omega
    rw [if_neg below, Position.past_of_broken start (start.past removed) broken]
    simp only [Position.offset_past, Position.line_past, Position.mk.injEq, and_true]
    omega
  · simp only [Position.past_of_unbroken _ broken, if_true, Position.offset_past,
      Position.mk.injEq, true_and]
    omega

/-- A position in or at the end of the removed text falls back to its start. -/
theorem carry_remove_within (start : Position) {removed walked : List Char}
    (moved : walked ≠ []) (within : walked.length ≤ removed.length) :
    (Edit.remove start removed).carry (start.past walked) = start := by
  have length := List.length_pos_iff.mpr moved
  have further : ¬ (start.past walked).offset ≤ start.offset := by
    rw [Position.offset_past]
    omega
  have inside : (start.past walked).offset ≤ (start.past removed).offset := by
    simp only [Position.offset_past]
    omega
  simp only [carry, further, if_false, inside, if_true]

theorem shift_insert_at (before text : List Char) (offset : Nat) :
    (insert (Position.origin.past before) text).shift offset =
      if offset ≤ before.length then offset else offset + text.length := by
  simp only [shift, Position.offset_origin_past]

theorem shift_remove_at (before removed : List Char) (offset : Nat) :
    (remove (Position.origin.past before) removed).shift offset =
      if offset ≤ before.length then offset
      else if offset ≤ before.length + removed.length then before.length
      else offset - removed.length := by
  simp only [shift, Position.offset_origin_past]

/-- Carried across an insertion, a scan of the text before it is one of the text after it. -/
theorem carry_insert_scan (before text after : List Char) {offset : Nat}
    (inside : offset ≤ (before ++ after).length) :
    (insert (Position.origin.past before) text).carry
        (Position.origin.past ((before ++ after).take offset)) =
      Position.origin.past ((before ++ text ++ after).take
        ((insert (Position.origin.past before) text).shift offset)) := by
  by_cases early : offset ≤ before.length
  · rw [carry_of_le]
    · simp only [shift_insert_at, early, if_true, List.append_assoc,
        List.take_append_of_le_length early]
    · simp only [Edit.start, Position.offset_origin_past, List.length_take]
      omega
  · obtain ⟨walked, rfl⟩ := Nat.exists_eq_add_of_le (Nat.le_of_not_le early)
    rw [List.length_append] at inside
    have moved : after.take walked ≠ [] := by
      rw [← List.length_pos_iff, List.length_take]
      omega
    have there : (insert (Position.origin.past before) text).shift (before.length + walked) =
        (before ++ text).length + walked := by
      simp only [shift_insert_at, early, if_false, List.length_append]
      omega
    rw [there, List.take_length_add_append, List.take_length_add_append, Position.past_append,
      carry_insert_past _ _ moved, Position.past_append, Position.past_append]

/-- Carried across a removal, a scan of the text before it is one of the text after it. -/
theorem carry_remove_scan (before removed after : List Char) {offset : Nat}
    (inside : offset ≤ (before ++ removed ++ after).length) :
    (remove (Position.origin.past before) removed).carry
        (Position.origin.past ((before ++ removed ++ after).take offset)) =
      Position.origin.past ((before ++ after).take
        ((remove (Position.origin.past before) removed).shift offset)) := by
  by_cases early : offset ≤ before.length
  · rw [carry_of_le]
    · simp only [shift_remove_at, early, if_true, List.append_assoc,
        List.take_append_of_le_length early]
    · simp only [Edit.start, Position.offset_origin_past, List.length_take]
      omega
  · obtain ⟨walked, rfl⟩ := Nat.exists_eq_add_of_le (Nat.le_of_not_le early)
    simp only [List.length_append] at inside
    by_cases within : walked ≤ removed.length
    · have moved : removed.take walked ≠ [] := by
        rw [← List.length_pos_iff, List.length_take]
        omega
      have there : (remove (Position.origin.past before) removed).shift
          (before.length + walked) = before.length := by
        simp only [shift_remove_at, early, if_false, Nat.add_le_add_iff_left, within, if_true]
      rw [there, List.append_assoc, List.take_length_add_append,
        List.take_append_of_le_length within, List.take_left, Position.past_append,
        carry_remove_within _ moved (by rw [List.length_take]; omega)]
    · obtain ⟨further, rfl⟩ := Nat.exists_eq_add_of_le (Nat.le_of_not_le within)
      have moved : after.take further ≠ [] := by
        rw [← List.length_pos_iff, List.length_take]
        omega
      have there : (remove (Position.origin.past before) removed).shift
          (before.length + (removed.length + further)) = before.length + further := by
        simp only [shift_remove_at, early, if_false, Nat.add_le_add_iff_left, within]
        omega
      rw [there, ← Nat.add_assoc, ← List.length_append, List.take_length_add_append,
        List.take_length_add_append, Position.past_append, Position.past_append,
        carry_remove_past _ _ moved, Position.past_append]

end Redex.Edit
