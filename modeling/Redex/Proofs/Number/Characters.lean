import Redex.Number.Layout

/-! The characters of a printed number. Whatever layout is chosen for its digits,
a number is written with digits, a point, an exponent mark and signs, so it
holds nothing that quoted text would have to escape. -/
namespace Redex

/-- Whether a character stands for itself in quoted text. -/
def Plain (c : Char) : Prop := c ≠ '\\' ∧ c ≠ '\'' ∧ c ≠ '"' ∧ c ≠ '\n'

instance : DecidablePred Plain := fun c =>
  inferInstanceAs (Decidable (c ≠ '\\' ∧ c ≠ '\'' ∧ c ≠ '"' ∧ c ≠ '\n'))

theorem plain_of_all {text : List Char} (all : text.all (decide <| Plain ·) = true) :
    ∀ c ∈ text, Plain c := fun c member => of_decide_eq_true (List.all_eq_true.mp all c member)

theorem plain_of_isDigit {c : Char} (digit : c.isDigit = true) : Plain c := by
  refine ⟨?_, ?_, ?_, ?_⟩ <;> rintro rfl <;> exact absurd digit (by decide)

namespace Layout

variable {c : Char}

theorem plain_zeros {count : Int} (member : c ∈ zeros count) : Plain c :=
  (List.mem_replicate.mp member).2 ▸ (by decide)

theorem plain_toDigits {n : Nat} (member : c ∈ Nat.toDigits 10 n) : Plain c :=
  plain_of_isDigit (Nat.isDigit_of_mem_toDigits (by decide) (by decide) member)

theorem plain_exponentText {exponent : Int} (member : c ∈ exponentText exponent) : Plain c := by
  rcases List.mem_cons.mp member with rfl | digit
  · split <;> decide
  · exact plain_toDigits digit

theorem plain_place {layout : Layout} (whole : ∀ c ∈ layout.wholeEnd, Plain c)
    {digits : List Char} (plain : ∀ c ∈ digits, Plain c) {point : Int}
    (member : c ∈ layout.place digits point) : Plain c := by
  have mark : Plain '.' ∧ Plain 'e' ∧ Plain '0' := by decide
  simp only [place] at member
  split at member
  · rcases List.mem_append.mp member with member | last
    · exact (List.mem_append.mp member).elim (plain c) plain_zeros
    · exact whole c last
  · split at member
    · rcases List.mem_append.mp member with first | member
      · exact plain c (List.mem_of_mem_take first)
      · rcases List.mem_cons.mp member with rfl | later
        · exact mark.1
        · exact plain c (List.mem_of_mem_drop later)
    · split at member
      · rcases List.mem_append.mp member with member | digit
        · rcases List.mem_cons.mp member with rfl | member
          · exact mark.2.2
          · rcases List.mem_cons.mp member with rfl | zero
            · exact mark.1
            · exact plain_zeros zero
        · exact plain c digit
      · rcases List.mem_append.mp member with member | member
        · rcases List.mem_append.mp member with first | member
          · exact plain c (List.mem_of_mem_take first)
          · split at member
            · contradiction
            · rcases List.mem_cons.mp member with rfl | later
              · exact mark.1
              · exact plain c (List.mem_of_mem_drop later)
        · rcases List.mem_cons.mp member with rfl | exponent
          · exact mark.2.1
          · exact plain_exponentText exponent

theorem place_ne_nil {layout : Layout} {digits : List Char} (some : digits ≠ []) (point : Int) :
    layout.place digits point ≠ [] := by
  simp only [place]
  split
  · simp [some]
  · split
    · simp
    · split <;> simp

theorem plain_finite {layout : Layout} (whole : ∀ c ∈ layout.wholeEnd, Plain c)
    {negative : Bool} {index : Nat} (member : c ∈ layout.finite negative index) : Plain c := by
  unfold finite decimal at member
  rcases List.mem_append.mp member with sign | member
  · cases negative with
    | true => exact List.mem_singleton.mp sign ▸ (by decide)
    | false => exact absurd sign List.not_mem_nil
  · exact plain_place whole (fun _ digit => plain_toDigits digit) member

theorem finite_ne_nil (layout : Layout) (negative : Bool) (index : Nat) :
    layout.finite negative index ≠ [] := by
  unfold finite decimal
  exact List.append_ne_nil_of_right_ne_nil _ (place_ne_nil Nat.toDigits_ne_nil _)

end Layout

namespace Binary64

/-- A printed number can stand in quotes as it is. -/
theorem plain_toText (x : Binary64) : ∀ c ∈ x.toText.toList, Plain c := by
  cases x with
  | nan => exact plain_of_all (by decide)
  | infinite negative => cases negative <;> exact plain_of_all (by decide)
  | finite negative index =>
    simp only [toText]
    split
    · exact plain_of_all (by decide)
    · rw [String.toList_ofList]
      exact fun c => Layout.plain_finite (List.forall_mem_nil _)

theorem toText_ne_nil (x : Binary64) : x.toText.toList ≠ [] := by
  cases x with
  | nan => decide
  | infinite negative => cases negative <;> decide
  | finite negative index =>
    simp only [toText]
    split
    · decide
    · rw [String.toList_ofList]
      exact Layout.finite_ne_nil _ _ _

end Binary64
end Redex
