import Redex.Proofs.Program.Written
import Redex.Proofs.Session.Merging

/-! Literals that denote values. A literal is either plain text, which is what its
value converts to, or a string literal. Merging two of which one is a string
gives a string literal that denotes their texts joined. -/
namespace Redex

namespace Quoted

theorem quote?_of_plain {text : List Char} (plain : ∀ c ∈ text, Plain c) : quote? text = none := by
  apply quote?_eq_none
  intro c member
  obtain ⟨-, single, double, -⟩ := plain c member
  exact ⟨single, double⟩

theorem readable_of_plain {quote : Char} (style : quote = '\'' ∨ quote = '"')
    {text : List Char} (plain : ∀ c ∈ text, Plain c) :
    Readable quote text ∧ decode text = text := by
  apply reads_of_plain
  intro c member
  obtain ⟨backslash, single, double, newline⟩ := plain c member
  refine ⟨backslash, ?_, newline⟩
  rcases style with rfl | rfl
  · exact single
  · exact double

namespace Literal

theorem quote?_text (x : Literal) : Quoted.quote? x.text = some x.quote :=
  quote?_eq_some.mpr ⟨x.style, x.contents, rfl⟩

theorem contents_text (x : Literal) : Quoted.contents x.text = x.contents :=
  contents_quoted x.style x.contents

end Literal

theorem ReadsFrom.unbroken {quote : Char} {escaped : Bool} {contents : List Char}
    (reads : ReadsFrom (fun c => c ≠ quote ∧ c ≠ '\n') (fun c => c = '\\' ∨ c = '\'' ∨ c = '"')
      escaped contents) : '\n' ∉ contents := by
  induction contents generalizing escaped with
  | nil => exact List.not_mem_nil
  | cons c rest ih =>
    cases escaped with
    | true =>
      apply List.not_mem_cons_of_ne_of_not_mem _ (ih reads.2)
      rintro rfl
      exact absurd reads.1 (by decide)
    | false =>
      simp only [ReadsFrom] at reads
      by_cases backslash : c = '\\'
      · rw [if_pos backslash] at reads
        apply List.not_mem_cons_of_ne_of_not_mem _ (ih reads)
        rw [backslash]
        decide
      · rw [if_neg backslash] at reads
        exact List.not_mem_cons_of_ne_of_not_mem (Ne.symm reads.1.2) (ih reads.2)

end Quoted

namespace Written.Denotes

variable {quote? : Option Char} {text : List Char} {v : Value}

/-- Plain text that its value converts to, or a string literal. -/
theorem plain_or_string (denotes : Denotes quote? text v) :
    (quote? = none ∧ (∀ c ∈ text, Plain c) ∧ text ≠ [] ∧ v.isString = false ∧
      v.toText = .ok (String.ofList text) ∧ ∃ x, v.toNumber = .ok x) ∨
    ∃ x : Quoted.Literal, quote? = some x.quote ∧ text = x.text ∧ v = .string x.value := by
  cases denotes with
  | null => exact .inl ⟨rfl, plain_of_all (by decide), by decide, rfl, rfl, _, rfl⟩
  | boolean b =>
    cases b with
    | true => exact .inl ⟨rfl, plain_of_all (by decide), by decide, rfl, rfl, _, rfl⟩
    | false => exact .inl ⟨rfl, plain_of_all (by decide), by decide, rfl, rfl, _, rfl⟩
  | number x =>
    exact .inl ⟨rfl, x.plain_toText, x.toText_ne_nil, rfl, by
      rw [String.ofList_toList]; rfl, _, rfl⟩
  | string x => exact .inr ⟨x, rfl, rfl, rfl⟩

theorem quote_eq (denotes : Denotes quote? text v) : Quoted.quote? text = quote? := by
  obtain ⟨rfl, plain, -⟩ | ⟨x, rfl, rfl, -⟩ := denotes.plain_or_string
  · exact Quoted.quote?_of_plain plain
  · exact x.quote?_text

theorem unbroken (denotes : Denotes quote? text v) : '\n' ∉ text := by
  obtain ⟨-, plain, -⟩ | ⟨x, -, rfl, -⟩ := denotes.plain_or_string
  · exact fun member => absurd (plain _ member) (by decide)
  · have style : '\n' ≠ x.quote := by
      rcases x.style with style | style <;> rw [style] <;> decide
    intro member
    rcases List.mem_append.mp member with member | last
    · rcases List.mem_cons.mp member with first | member
      · exact style first
      · exact Quoted.ReadsFrom.unbroken x.readable member
    · exact style (List.mem_singleton.mp last)

theorem toNumber (denotes : Denotes none text v) : ∃ x, v.toNumber = .ok x := by
  obtain ⟨-, -, -, -, -, number⟩ | ⟨x, quoted, -⟩ := denotes.plain_or_string
  · exact number
  · contradiction

theorem style (denotes : Denotes quote? text v) {quote : Char} (quoted : quote? = some quote) :
    quote = '\'' ∨ quote = '"' := by
  obtain ⟨rfl, -⟩ | ⟨x, rfl, -⟩ := denotes.plain_or_string
  · contradiction
  · exact Option.some.inj quoted ▸ x.style

/-- The contents of a literal can be read in its own quotes, or in any if it has none, and
denote the text that its value converts to. -/
theorem contents (denotes : Denotes quote? text v) {quote : Char}
    (style : quote = '\'' ∨ quote = '"') (own : quote? = none ∨ quote? = some quote) :
    Quoted.Readable quote (Quoted.contents text) ∧
      v.toText = .ok (String.ofList (Quoted.decode (Quoted.contents text))) := by
  obtain ⟨rfl, plain, -, -, converts, -⟩ | ⟨x, rfl, rfl, rfl⟩ := denotes.plain_or_string
  · obtain ⟨readable, same⟩ := Quoted.readable_of_plain style plain
    rw [Quoted.contents_unquoted (Quoted.quote?_of_plain plain), same]
    exact ⟨readable, converts⟩
  · obtain rfl := Option.some.inj (own.resolve_left (Option.some_ne_none _))
    rw [x.contents_text]
    exact ⟨x.readable, rfl⟩

/-- What the right literal adds to a string literal in `quote`. -/
theorem appended (denotes : Denotes quote? text v) {quote : Char}
    (style : quote = '\'' ∨ quote = '"') (right : Session.Operand) (same : right.text = text) :
    Quoted.Readable quote (right.appended quote) ∧
      v.toText = .ok (String.ofList (Quoted.decode (right.appended quote))) := by
  subst same
  have quoted : right.quote? = quote? := denotes.quote_eq
  rw [Session.Operand.appended, quoted]
  cases quote? with
  | none => exact denotes.contents style (.inl rfl)
  | some own =>
    by_cases equal : own = quote
    · subst equal
      simp only [if_true]
      exact denotes.contents style (.inr rfl)
    · simp only [equal, if_false]
      obtain ⟨readable, converts⟩ := denotes.contents (denotes.style rfl) (.inr rfl)
      refine ⟨readable.escape (fun bare other => ⟨other, bare.2⟩) id (.inr style), ?_⟩
      rw [converts, Quoted.decode, Quoted.decode, Quoted.escape, Quoted.decodeFrom_escape]
      rfl

end Written.Denotes

namespace Written

end Written
end Redex
