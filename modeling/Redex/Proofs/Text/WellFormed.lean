import Redex.Proofs.Text.Quoting

/-! Contents that end where their literal does. In a literal whose contents are well formed, the
first quote that is not escaped is the one that closes it. An operand of a concatenation is such
a literal or plain text, and may be written into a literal of either style. -/
namespace Redex.Quoted

/-- Read with their escapes, the contents have no bare `quote` and do not end inside an escape. -/
def WellFormed (quote : Char) (contents : List Char) : Prop :=
  ReadsFrom (· ≠ quote) (fun _ => True) false contents

instance (quote : Char) (contents : List Char) : Decidable (WellFormed quote contents) :=
  decidableReadsFrom false contents

/-- A literal with well-formed contents, or text without quotes and backslashes. -/
inductive Formed : List Char → Prop
  | literal {quote : Char} {contents : List Char} (style : quote = '\'' ∨ quote = '"')
      (wellFormed : WellFormed quote contents) : Formed (quote :: contents ++ [quote])
  | bare {text : List Char} (plain : ∀ c ∈ text, c ≠ '\\' ∧ c ≠ '\'' ∧ c ≠ '"') : Formed text

variable {quote : Char} {text first second : List Char}

theorem WellFormed.append (one : WellFormed quote first) (two : WellFormed quote second) :
    WellFormed quote (first ++ second) :=
  ReadsFrom.append one two

/-- Escaping makes well-formed contents of whatever does not end inside an escape. -/
theorem wellFormed_escape {bare : Char → Prop}
    (reads : ReadsFrom bare (fun _ => True) false text) : WellFormed quote (escape quote text) :=
  reads.escape (fun _ other => other) id trivial

theorem decode_escape (quote : Char) (text : List Char) :
    decode (escape quote text) = decode text :=
  decodeFrom_escape false text

theorem ReadsFrom.bareFrom_eq_nil {covered : Char → Prop} {escaped : Bool} {index : Nat}
    (reads : ReadsFrom (· ≠ quote) covered escaped text) :
    bareFrom quote escaped index text = [] := by
  induction text generalizing escaped index with
  | nil => cases escaped <;> rfl
  | cons c rest ih =>
    cases escaped with
    | true => exact ih reads.2
    | false =>
      simp only [ReadsFrom] at reads
      rw [bareFrom]
      split at reads
      · rw [if_pos ‹_›]
        exact ih reads
      · rw [if_neg ‹_›, if_neg reads.1]
        exact ih reads.2

theorem WellFormed.bare_eq_nil (wellFormed : WellFormed quote text) : bare quote text = [] :=
  ReadsFrom.bareFrom_eq_nil wellFormed

/-- Text without quotes and backslashes can be the contents of any literal. -/
theorem wellFormed_of_plain (style : quote = '\'' ∨ quote = '"')
    (plain : ∀ c ∈ text, c ≠ '\\' ∧ c ≠ '\'' ∧ c ≠ '"') : WellFormed quote text := by
  refine (reads_of_plain ?_).1
  intro c member
  obtain ⟨backslash, single, double⟩ := plain c member
  refine ⟨backslash, ?_⟩
  rcases style with rfl | rfl
  · exact single
  · exact double

namespace Formed

/-- What stands between the marks of an operand. -/
theorem cases (formed : Formed text) :
    (∃ own, quote? text = some own ∧ WellFormed own (contents text)) ∨
      quote? text = none ∧ ∀ c ∈ contents text, c ≠ '\\' ∧ c ≠ '\'' ∧ c ≠ '"' := by
  cases formed with
  | @literal own inner style wellFormed =>
    refine .inl ⟨own, quote?_eq_some.mpr ⟨style, inner, rfl⟩, ?_⟩
    rwa [contents_quoted style]
  | bare plain =>
    have unquoted : quote? text = none := quote?_eq_none fun c member => (plain c member).2
    refine .inr ⟨unquoted, ?_⟩
    rwa [contents_unquoted unquoted]

/-- The contents can go into a literal of their own style, or of either if they have none. -/
theorem wellFormed (formed : Formed text) (style : quote = '\'' ∨ quote = '"')
    (own : quote? text = none ∨ quote? text = some quote) : WellFormed quote (contents text) := by
  obtain ⟨other, quoted, wellFormed⟩ | ⟨-, plain⟩ := formed.cases
  · obtain unquoted | same := own
    · exact nomatch quoted.symm.trans unquoted
    · obtain rfl := Option.some.inj (quoted.symm.trans same)
      exact wellFormed
  · exact wellFormed_of_plain style plain

/-- Once they are escaped they can go into any literal. -/
theorem wellFormed_escape (formed : Formed text) :
    WellFormed quote (escape quote (contents text)) := by
  obtain ⟨own, -, wellFormed⟩ | ⟨-, plain⟩ := formed.cases
  · exact Quoted.wellFormed_escape wellFormed
  · have reads : ReadsFrom (fun _ => True) (fun _ => True) false (contents text) :=
      (reads_of_plain fun c member => ⟨(plain c member).1, trivial⟩).1
    exact Quoted.wellFormed_escape reads

end Formed
end Redex.Quoted
