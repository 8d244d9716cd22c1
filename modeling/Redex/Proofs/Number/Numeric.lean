import Redex.Number.Guarded
import Redex.Proofs.Number.Decimal
import Redex.Proofs.Number.Radix
import Redex.Proofs.Number.Spelling

/-! The grammar of numeric literals. A text gives a number just if it is a literal between padding;
all other texts are NaN. Reading by way of a reader of floats, with a case for each text that the two
take differently, comes to the same. -/
namespace Redex.Numeral

open Binary64 (ofIndex)

/-- The numeric literals, by the productions of their grammar. -/
inductive Numeric : List Char → Prop
  | nothing : Numeric []
  | infinity {sign : List Char} {negative : Bool} (signed : Sign sign negative) :
      Numeric (sign ++ "Infinity".toList)
  | radix {mark : Char} {radix : Nat} {alphabet digits : List Char}
      (marked : RadixMark mark radix alphabet) (nonempty : digits ≠ [])
      (all : ∀ c ∈ digits, c ∈ alphabet) : Numeric ('0' :: mark :: digits)
  | decimal {sign body : List Char} {negative : Bool} {x : Decimal} (signed : Sign sign negative)
      (spells : Spells body x) : Numeric (sign ++ body)

variable {text sign body digits : List Char} {mark c : Char} {negative : Bool} {x : Decimal}

/-! ## The characters of a decimal -/

/-- What a decimal may hold besides digits. -/
def punctuation : List Char := ['.', 'e', 'E', '+', '-']

theorem FractionPart.characters {fraction : List Char} (part : FractionPart text fraction) :
    ∀ c ∈ text, c.isDigit = true ∨ c ∈ punctuation := by
  intro c member
  cases part with
  | absent => cases member
  | point digits =>
    rcases List.mem_cons.mp member with rfl | member
    · exact .inr (by decide)
    · exact .inl (digits c member)

theorem ExponentPart.characters {exponent : Int} (part : ExponentPart text exponent) :
    ∀ c ∈ text, c.isDigit = true ∨ c ∈ punctuation := by
  intro c member
  rcases part with _ | ⟨marked, signed, -, all⟩
  · cases member
  · rcases List.mem_cons.mp member with rfl | member
    · exact .inr (by rcases marked with rfl | rfl <;> decide)
    · rcases List.mem_append.mp member with member | member
      · refine .inr ?_
        cases signed with
        | absent => cases member
        | plus => exact List.mem_singleton.mp member ▸ by decide
        | minus => exact List.mem_singleton.mp member ▸ by decide
      · exact .inl (all c member)

theorem Spells.characters (spells : Spells text x) :
    ∀ c ∈ text, c.isDigit = true ∨ c ∈ punctuation := by
  obtain ⟨digits, fractionPart, -, exponentPart⟩ := spells
  simp only [List.forall_mem_append]
  exact ⟨fun c member => .inl (digits c member), fractionPart.characters, exponentPart.characters⟩

/-- A decimal begins with a digit or the point. -/
theorem Spells.head (spells : Spells text x) :
    ∃ c rest, text = c :: rest ∧ (c.isDigit = true ∨ c = '.') := by
  obtain @⟨whole, _, _, _, _, digits, fractionPart, nonempty, -⟩ := spells
  cases whole with
  | cons c rest => exact ⟨c, _, rfl, .inl (digits c List.mem_cons_self)⟩
  | nil =>
    cases fractionPart with
    | absent => exact absurd rfl nonempty
    | point _ => exact ⟨'.', _, rfl, .inr rfl⟩

theorem Spells.not_mem (spells : Spells text x) (letter : c.isDigit = false)
    (other : c ∉ punctuation) : c ∉ text := by
  intro member
  rcases spells.characters c member with digit | mark
  · exact absurd (letter.symm.trans digit) (by decide)
  · exact other mark

theorem Spells.ne_infinity (spells : Spells text x) : text ≠ "Infinity".toList := by
  rintro rfl
  exact spells.not_mem (show 'I'.isDigit = false by decide) (by decide) (by decide)

/-- No radix literal is a decimal. -/
theorem Spells.radix?_eq_none (spells : Spells ('0' :: mark :: digits) x) : radix? mark = none := by
  cases found : radix? mark with
  | none => rfl
  | some radix =>
    obtain ⟨alphabet, marked⟩ := exists_radixMark found
    have member : mark ∈ '0' :: mark :: digits := by simp
    refine absurd member (spells.not_mem ?_ ?_) <;>
      rcases marked with either | either | either <;> rcases either with rfl | rfl <;> decide

/-! ## Reading -/

theorem signed?_eq (text : List Char) :
    signed? text = if (splitSign text).2 = "Infinity".toList then some (.infinite (splitSign text).1)
      else (decimal? (splitSign text).2).map (·.toBinary64 (splitSign text).1) := rfl

theorem signed?_sign (signed : Sign sign negative) (plus : body.head? ≠ some '+')
    (minus : body.head? ≠ some '-') : signed? (sign ++ body) =
      if body = "Infinity".toList then some (.infinite negative)
      else (decimal? body).map (·.toBinary64 negative) := by
  rw [signed?_eq, splitSign_sign signed plus minus]

theorem Spells.head?_ne (spells : Spells text x) (letter : c.isDigit = false) (other : c ≠ '.') :
    text.head? ≠ some c := by
  obtain ⟨first, rest, rfl, known⟩ := spells.head
  rintro ⟨⟩
  rcases known with digit | dot
  · exact absurd (letter.symm.trans digit) (by decide)
  · exact other dot

theorem Spells.signed?_eq (signed : Sign sign negative) (spells : Spells body x) :
    signed? (sign ++ body) = some (ofIndex negative x.nearest) := by
  rw [signed?_sign signed (spells.head?_ne (by decide) (by decide))
    (spells.head?_ne (by decide) (by decide)), if_neg spells.ne_infinity,
    decimal?_eq_some_iff.mpr spells, Option.map_some, Decimal.toBinary64_eq]

/-- Where there is neither nothing nor a radix literal. -/
theorem number?_eq_signed? (nonempty : text ≠ [])
    (unmarked : ∀ mark digits, text = '0' :: mark :: digits → radix? mark = none) :
    number? text = signed? text := by
  unfold number?
  split
  · exact absurd rfl nonempty
  · next mark digits => simp only [unmarked mark digits rfl]
  · rfl

theorem ofIndex_ne_nan (negative : Bool) (index : Nat) : ofIndex negative index ≠ .nan := by
  unfold ofIndex
  split <;> simp

theorem Spells.number?_eq (signed : Sign sign negative) (spells : Spells body x) :
    number? (sign ++ body) = some (ofIndex negative x.nearest) := by
  obtain ⟨first, rest, rfl, -⟩ := spells.head
  rw [number?_eq_signed? (by simp), spells.signed?_eq signed]
  intro mark digits same
  cases signed with
  | absent =>
    rw [List.nil_append] at same
    exact Spells.radix?_eq_none (same ▸ spells)
  | plus => cases same
  | minus => cases same

theorem number?_infinity (signed : Sign sign negative) :
    number? (sign ++ "Infinity".toList) = some (.infinite negative) := by
  cases signed <;> rfl

/-- A literal gives a number that is not NaN. -/
theorem Numeric.exists_number (numeric : Numeric text) :
    ∃ number, number? text = some number ∧ number ≠ .nan := by
  cases numeric with
  | nothing => exact ⟨_, rfl, by simp⟩
  | infinity signed => exact ⟨_, number?_infinity signed, by simp⟩
  | radix marked nonempty all =>
    obtain ⟨bits, rfl, short⟩ := marked.power
    refine ⟨_, marked.number?_eq.trans (radixNumber?_eq short nonempty ?_), ofIndex_ne_nan _ _⟩
    exact fun c member => marked.radixDigit? c (all c member)
  | decimal signed spells => exact ⟨_, spells.number?_eq signed, ofIndex_ne_nan _ _⟩

theorem numeric_of_signed? {number : Binary64} (read : signed? text = some number) :
    Numeric text := by
  obtain ⟨sign, signed, split⟩ := exists_sign text
  rw [signed?_eq] at read
  rw [split]
  split at read
  next infinite =>
    rw [infinite]
    exact .infinity signed
  next =>
    obtain ⟨x, found, -⟩ := Option.map_eq_some_iff.mp read
    exact .decimal signed (decimal?_eq_some_iff.mp found)

theorem mem_of_foldlM {radix : Nat} {alphabet : List Char} (marked : RadixMark mark radix alphabet)
    {x y : Binary64} (read : digits.foldlM (fun x c => (radixDigit? radix c).map (shiftIn radix x)) x =
      some y) : ∀ c ∈ digits, c ∈ alphabet := by
  induction digits generalizing x with
  | nil => exact List.forall_mem_nil _
  | cons c digits ih =>
    rw [List.foldlM_cons, Option.bind_eq_bind, Option.bind_eq_some_iff] at read
    obtain ⟨z, shifted, read⟩ := read
    obtain ⟨digit, found, -⟩ := Option.map_eq_some_iff.mp shifted
    exact List.forall_mem_cons.mpr ⟨marked.mem_of_radixDigit? found, ih read⟩

/-- What gives a number is a literal. -/
theorem numeric_of_number? {number : Binary64} (read : number? text = some number) :
    Numeric text := by
  unfold number? at read
  split at read
  · exact .nothing
  · next mark digits =>
    split at read
    next radix found =>
      obtain ⟨alphabet, marked⟩ := exists_radixMark found
      rw [radixNumber?] at read
      split at read
      · cases read
      · next nonempty => exact .radix marked nonempty (mem_of_foldlM marked read)
    next => exact numeric_of_signed? read
  · exact numeric_of_signed? read

theorem getD_number?_ne_nan_iff : (number? text).getD .nan ≠ .nan ↔ Numeric text := by
  constructor
  · intro number
    cases read : number? text with
    | none => exact absurd (by rw [read]; rfl) number
    | some x => exact numeric_of_number? read
  · intro numeric
    obtain ⟨number, read, other⟩ := numeric.exists_number
    rwa [read, Option.getD_some]

/-! ## By way of a reader of floats -/

theorem toLower_of_isDigit (digit : c.isDigit = true) : c.toLower = c := by
  have below : ¬c.val ≥ 'A'.val := by
    simp only [Char.isDigit, Bool.and_eq_true, decide_eq_true_eq] at digit
    exact fun above => absurd (UInt32.le_trans above digit.2) (by decide)
  exact dif_neg fun range => below range.1

/-- No word is a decimal. -/
theorem Spells.lowercase_not_mem (spells : Spells text x) : lowercase text ∉ words := by
  obtain ⟨first, rest, rfl, known⟩ := spells.head
  have same : first.toLower = first := by
    rcases known with digit | rfl
    · exact toLower_of_isDigit digit
    · rfl
  intro word
  rw [lowercase, List.map_cons, same] at word
  have letter : first = 'i' ∨ first = 'n' := by
    simp only [words, List.mem_cons, List.not_mem_nil, or_false] at word
    rcases word with word | word | word
    · exact .inl (List.cons.inj word).1
    · exact .inl (List.cons.inj word).1
    · exact .inr (List.cons.inj word).1
  rcases letter with rfl | rfl <;> exact absurd known (by decide)

theorem float?_eq_signed? (other : lowercase (splitSign text).2 ∉ words) :
    float? text = signed? text := by
  have infinite : (splitSign text).2 ≠ "Infinity".toList := by
    intro same
    rw [same] at other
    exact other (by decide)
  simp only [words, List.mem_cons, not_or] at other
  obtain ⟨inf, infinity, nan, -⟩ := other
  rw [signed?_eq, if_neg infinite]
  exact (if_neg (not_or.mpr ⟨inf, infinity⟩)).trans (if_neg nan)

/-- The words are no literals, whatever their sign. The infinities are. -/
theorem not_numeric_of_mem_words (nonempty : text ≠ []) (plain : text ≠ "Infinity".toList)
    (plus : text ≠ "+Infinity".toList) (minus : text ≠ "-Infinity".toList)
    (word : lowercase (splitSign text).2 ∈ words) : ¬Numeric text := by
  rintro (_ | signed | ⟨marked, -, -⟩ | ⟨signed, spells⟩)
  · exact nonempty rfl
  · cases signed
    · exact plain rfl
    · exact plus rfl
    · exact minus rfl
  · simp [splitSign, lowercase, words] at word
  · rw [splitSign_sign signed (spells.head?_ne (by decide) (by decide))
      (spells.head?_ne (by decide) (by decide))] at word
    exact spells.lowercase_not_mem word

theorem guarded_eq (text : List Char) : guarded text = (number? text).getD .nan := by
  unfold guarded
  split
  next empty => rw [empty]; rfl
  next nonempty =>
    split
    next infinite => rcases infinite with rfl | rfl <;> rfl
    next unsigned =>
      rw [not_or] at unsigned
      split
      next infinite => rw [infinite]; rfl
      next minus =>
        split
        next word =>
          have other := not_numeric_of_mem_words nonempty unsigned.1 unsigned.2 minus word
          exact (not_ne_iff.mp (getD_number?_ne_nan_iff.not.mpr other)).symm
        next other =>
          rw [float?_eq_signed? other]
          split
          next mark digits =>
            simp only [number?]
            cases radix? mark <;> rfl
          next unmarked =>
            rw [number?_eq_signed? nonempty]
            intro mark digits same
            exact absurd same (unmarked mark digits)

/-- A text gives a number just if what is left of it without padding is a numeric literal, and it
gives the same by way of the reader of floats. -/
theorem ofText_ne_nan_iff_numeric (text : String) :
    Binary64.ofText text = guarded (trimBoth isPadding text.toList) ∧
      (Binary64.ofText text ≠ .nan ↔ ∃ body, Trims isPadding text.toList body ∧ Numeric body) := by
  refine ⟨(guarded_eq _).symm, ?_⟩
  simp only [trims_iff, exists_eq_left]
  exact getD_number?_ne_nan_iff

end Redex.Numeral
