import Redex.Text.Blank
import Mathlib.Data.List.Basic
import Mathlib.Data.List.TakeWhile

/-! What is left of a text without the dropped characters at its ends: the stretch in the middle that
neither begins nor ends with one. -/
namespace Redex

variable {drop : Char → Bool} {text before body after : List Char}

/-- `body` is what is left of a text without the characters at either end that satisfy `drop`. -/
structure Trims (drop : Char → Bool) (text body : List Char) : Prop where
  around : ∃ before after, text = before ++ (body ++ after) ∧ (∀ c ∈ before, drop c = true) ∧
    ∀ c ∈ after, drop c = true
  first : ∀ c ∈ body.head?, drop c = false
  last : ∀ c ∈ body.getLast?, drop c = false

theorem dropWhile_head (drop : Char → Bool) (text : List Char) :
    ∀ c ∈ (text.dropWhile drop).head?, drop c = false := by
  intro c head
  have stop := List.head?_dropWhile_not drop text
  rw [Option.mem_def] at head
  rwa [head] at stop

theorem dropWhile_eq_of_head (stop : ∀ c ∈ text.head?, drop c = false) :
    text.dropWhile drop = text := by
  cases text with
  | nil => rfl
  | cons c rest => simp [stop c rfl]

theorem takeWhile_eq_of_head (stop : ∀ c ∈ text.head?, drop c = false) :
    text.takeWhile drop = [] := by
  cases text with
  | nil => rfl
  | cons c rest => simp [stop c rfl]

theorem trims_trimBoth (drop : Char → Bool) (text : List Char) :
    Trims drop text (trimBoth drop text) := by
  unfold trimBoth
  have start := List.takeWhile_append_dropWhile (p := drop) (l := text)
  have first := dropWhile_head drop text
  generalize text.dropWhile drop = rest at *
  have stop := List.takeWhile_append_dropWhile (p := drop) (l := rest.reverse)
  have last := dropWhile_head drop rest.reverse
  generalize rest.reverse.dropWhile drop = middle at *
  have split : rest = middle.reverse ++ (rest.reverse.takeWhile drop).reverse := by
    rw [← List.reverse_append, stop, List.reverse_reverse]
  refine ⟨⟨_, _, by rw [← split, start], ?_, ?_⟩, ?_, ?_⟩
  · exact List.all_eq_true.mp List.all_takeWhile
  · intro c member
    exact List.all_eq_true.mp List.all_takeWhile c (List.mem_reverse.mp member)
  · intro c head
    refine first c ?_
    rwa [split, List.head?_append_of_ne_nil]
    rintro none
    simp [none] at head
  · rwa [List.getLast?_reverse]

/-- A text that is trimmed at neither end stays in the middle of dropped characters. -/
theorem trimBoth_middle (nonempty : body ≠ []) (first : ∀ c ∈ body.head?, drop c = false)
    (last : ∀ c ∈ body.getLast?, drop c = false) (ahead : ∀ c ∈ before, drop c = true)
    (behind : ∀ c ∈ after, drop c = true) : trimBoth drop (before ++ (body ++ after)) = body := by
  have start : ∀ c ∈ (body ++ after).head?, drop c = false := by
    rwa [List.head?_append_of_ne_nil _ nonempty]
  rw [trimBoth, List.dropWhile_append_of_pos ahead, dropWhile_eq_of_head start, List.reverse_append,
    List.dropWhile_append_of_pos fun c member => behind c (List.mem_reverse.mp member),
    dropWhile_eq_of_head (by rwa [List.head?_reverse]), List.reverse_reverse]

theorem Trims.eq (trims : Trims drop text body) : trimBoth drop text = body := by
  obtain ⟨⟨before, after, rfl, ahead, behind⟩, first, last⟩ := trims
  rcases List.eq_nil_or_concat body with rfl | ⟨_, _, rfl⟩
  · have all : (before ++ ([] ++ after)).dropWhile drop = [] := by
      rw [List.dropWhile_append_of_pos ahead, List.nil_append, List.dropWhile_eq_nil_iff]
      exact behind
    rw [trimBoth, all]
    rfl
  · exact trimBoth_middle (by simp) first last ahead behind

theorem trims_iff : Trims drop text body ↔ body = trimBoth drop text :=
  ⟨fun trims => trims.eq.symm, fun same => same ▸ trims_trimBoth drop text⟩

/-- A text with neither end to drop is left as it is. -/
theorem trimBoth_self (first : ∀ c ∈ text.head?, drop c = false)
    (last : ∀ c ∈ text.getLast?, drop c = false) : trimBoth drop text = text :=
  Trims.eq ⟨⟨[], [], by simp⟩, first, last⟩

end Redex
