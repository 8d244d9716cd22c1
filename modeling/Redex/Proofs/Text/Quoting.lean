import Redex.Text.Quoted

/-! The characters that quoted contents denote. Contents are read from left to
right; a backslash is not a character of its own but lets the one after it
through. Escaping a quote changes how contents are written and not what they
denote, and contents that can be read on their own can be joined. -/
namespace Redex.Quoted

/-- What contents denote: every escaping backslash dropped. -/
def decodeFrom : (escaped : Bool) → List Char → List Char
  | _, [] => []
  | true, c :: rest => c :: decodeFrom false rest
  | false, c :: rest => if c = '\\' then decodeFrom true rest else c :: decodeFrom false rest

def decode (contents : List Char) : List Char := decodeFrom false contents

/-- Whether contents can be read up to their end, each bare character satisfying `bare`
and each escaped one `covered`. -/
def ReadsFrom (bare covered : Char → Prop) : (escaped : Bool) → List Char → Prop
  | escaped, [] => escaped = false
  | true, c :: rest => covered c ∧ ReadsFrom bare covered false rest
  | false, c :: rest =>
    if c = '\\' then ReadsFrom bare covered true rest
    else bare c ∧ ReadsFrom bare covered false rest

instance decidableReadsFrom {bare covered : Char → Prop} [DecidablePred bare]
    [DecidablePred covered] : (escaped : Bool) → (contents : List Char) → Decidable (ReadsFrom bare covered escaped contents)
  | escaped, [] => inferInstanceAs (Decidable (escaped = false))
  | true, c :: rest =>
    have : Decidable (ReadsFrom bare covered false rest) := decidableReadsFrom false rest
    inferInstanceAs (Decidable (covered c ∧ ReadsFrom bare covered false rest))
  | false, c :: rest =>
    have : Decidable (ReadsFrom bare covered false rest) := decidableReadsFrom false rest
    have : Decidable (ReadsFrom bare covered true rest) := decidableReadsFrom true rest
    inferInstanceAs (Decidable (if c = '\\' then ReadsFrom bare covered true rest
      else bare c ∧ ReadsFrom bare covered false rest))

section
variable {bare covered : Char → Prop} {first second contents : List Char} {escaped : Bool}

theorem ReadsFrom.append (one : ReadsFrom bare covered escaped first)
    (two : ReadsFrom bare covered false second) :
    ReadsFrom bare covered escaped (first ++ second) := by
  induction first generalizing escaped with
  | nil => cases one; exact two
  | cons c rest ih =>
    cases escaped with
    | true => exact ⟨one.1, ih one.2⟩
    | false =>
      simp only [List.cons_append, ReadsFrom] at one ⊢
      by_cases backslash : c = '\\'
      · rw [if_pos backslash] at one ⊢
        exact ih one
      · rw [if_neg backslash] at one ⊢
        exact ⟨one.1, ih one.2⟩

theorem decodeFrom_append (one : ReadsFrom bare covered escaped first) :
    decodeFrom escaped (first ++ second) = decodeFrom escaped first ++ decode second := by
  induction first generalizing escaped with
  | nil => cases one; rfl
  | cons c rest ih =>
    cases escaped with
    | true => simp only [List.cons_append, decodeFrom, ih one.2]
    | false =>
      simp only [List.cons_append, ReadsFrom, decodeFrom] at one ⊢
      by_cases backslash : c = '\\'
      · rw [if_pos backslash] at one
        rw [if_pos backslash, if_pos backslash, ih one]
      · rw [if_neg backslash] at one
        rw [if_neg backslash, if_neg backslash, ih one.2, List.cons_append]

theorem decode_append (one : ReadsFrom bare covered false first) :
    decode (first ++ second) = decode first ++ decode second :=
  decodeFrom_append one

/-- Text without backslashes is its own contents. -/
theorem reads_of_plain (plain : ∀ c ∈ contents, c ≠ '\\' ∧ bare c) :
    ReadsFrom bare covered false contents ∧ decode contents = contents := by
  induction contents with
  | nil => exact ⟨rfl, rfl⟩
  | cons c rest ih =>
    obtain ⟨ordinary, holds⟩ := plain c List.mem_cons_self
    obtain ⟨reads, same⟩ := ih fun d member => plain d (List.mem_cons_of_mem c member)
    rw [decode] at same
    simp only [ReadsFrom, decode, decodeFrom, ordinary, if_false]
    exact ⟨⟨holds, reads⟩, by rw [same]⟩

/-- Escaping covers every bare `quote`. -/
theorem ReadsFrom.escape {quote : Char} {bare' covered' : Char → Prop}
    (reads : ReadsFrom bare covered escaped contents)
    (kept : ∀ {c}, bare c → c ≠ quote → bare' c) (still : ∀ {c}, covered c → covered' c)
    (coverable : covered' quote) :
    ReadsFrom bare' covered' escaped (escapeFrom quote escaped contents) := by
  induction contents generalizing escaped with
  | nil => cases reads; rfl
  | cons c rest ih =>
    cases escaped with
    | true => exact ⟨still reads.1, ih reads.2⟩
    | false =>
      simp only [ReadsFrom, escapeFrom] at reads ⊢
      by_cases backslash : c = '\\'
      · rw [if_pos backslash] at reads ⊢
        simpa only [ReadsFrom, backslash, if_true] using ih reads
      · rw [if_neg backslash] at reads ⊢
        by_cases found : c = quote
        · simpa only [found, if_true, ReadsFrom] using ⟨coverable, ih reads.2⟩
        · simpa only [found, if_false, ReadsFrom, backslash] using ⟨kept reads.1 found, ih reads.2⟩

theorem decodeFrom_escape {quote : Char} (escaped : Bool) (contents : List Char) :
    decodeFrom escaped (escapeFrom quote escaped contents) = decodeFrom escaped contents := by
  induction contents generalizing escaped with
  | nil => rfl
  | cons c rest ih =>
    cases escaped with
    | true => simp only [escapeFrom, decodeFrom, ih]
    | false =>
      simp only [escapeFrom]
      by_cases backslash : c = '\\'
      · simp only [backslash, if_true, decodeFrom, ih]
      · by_cases found : c = quote
        · subst found
          simp only [backslash, if_false, if_true, decodeFrom, ih]
        · simp only [backslash, found, if_false, decodeFrom, ih]

end

/-- The quote at one end of a text, if it is quoted. -/
def marks (text : List Char) : List Char := (quote? text).toList

theorem quote?_eq_some {text : List Char} {quote : Char} :
    quote? text = some quote ↔
      (quote = '\'' ∨ quote = '"') ∧ ∃ contents, text = quote :: contents ++ [quote] := by
  cases text with
  | nil => simp [quote?]
  | cons c rest =>
    simp only [quote?, Option.ite_none_right_eq_some, Option.some.injEq]
    constructor
    · rintro ⟨⟨style, last⟩, rfl⟩
      obtain ⟨inner, rfl⟩ := List.getLast?_eq_some_iff.mp last
      exact ⟨style, inner, rfl⟩
    · rintro ⟨style, contents, whole⟩
      obtain ⟨rfl, rfl⟩ := List.cons.inj whole
      exact ⟨⟨style, List.getLast?_concat⟩, rfl⟩

theorem quote?_eq_none {text : List Char} (plain : ∀ c ∈ text, c ≠ '\'' ∧ c ≠ '"') :
    quote? text = none := by
  cases quoted : quote? text with
  | none => rfl
  | some quote =>
    obtain ⟨style, inner, rfl⟩ := quote?_eq_some.mp quoted
    obtain ⟨single, double⟩ := plain quote List.mem_cons_self
    exact absurd style (not_or.mpr ⟨single, double⟩)

theorem contents_quoted {quote : Char} (style : quote = '\'' ∨ quote = '"')
    (inner : List Char) : contents (quote :: inner ++ [quote]) = inner := by
  have quoted : quote? (quote :: inner ++ [quote]) = some quote :=
    quote?_eq_some.mpr ⟨style, inner, rfl⟩
  rw [contents, quoted, Option.isSome_some, if_pos rfl, List.cons_append, List.tail_cons,
    List.dropLast_concat]

theorem contents_unquoted {text : List Char} (bare : quote? text = none) :
    contents text = text := by
  simp only [contents, bare, Option.isSome_none, Bool.false_eq_true, if_false]

/-- Every text is its contents between its marks. -/
theorem eq_marks_contents (text : List Char) :
    text = marks text ++ contents text ++ marks text := by
  cases found : quote? text with
  | none => simp [marks, found, contents_unquoted found]
  | some quote =>
    obtain ⟨style, inner, rfl⟩ := quote?_eq_some.mp found
    rw [contents_quoted style, marks, found]
    rfl

theorem mem_of_mem_contents {text : List Char} {c : Char} (member : c ∈ contents text) :
    c ∈ text := by
  rw [eq_marks_contents text]
  simp [member]

/-- Escaping puts in nothing but backslashes. -/
theorem mem_of_mem_escape {quote c : Char} {escaped : Bool} {text : List Char}
    (member : c ∈ escapeFrom quote escaped text) : c = '\\' ∨ c ∈ text := by
  induction text generalizing escaped with
  | nil => exact .inr member
  | cons d rest ih =>
    have later {escaped : Bool} (member : c ∈ d :: escapeFrom quote escaped rest) :
        c = '\\' ∨ c ∈ d :: rest := by
      rcases List.mem_cons.mp member with rfl | member
      · exact .inr List.mem_cons_self
      · exact (ih member).imp_right (List.mem_cons_of_mem d)
    cases escaped with
    | true => exact later member
    | false =>
      rw [escapeFrom] at member
      split at member
      · exact later member
      · split at member
        · exact (List.mem_cons.mp member).elim .inl later
        · exact later member

/-- Escaping puts in one character for each bare `quote`. -/
theorem length_escapeFrom (quote : Char) (escaped : Bool) (index : Nat) (text : List Char) :
    (escapeFrom quote escaped text).length =
      text.length + (bareFrom quote escaped index text).length := by
  induction text generalizing escaped index with
  | nil => rfl
  | cons c rest ih =>
    have later (escaped : Bool) : (escapeFrom quote escaped rest).length + 1 =
        (c :: rest).length + (bareFrom quote escaped (index + 1) rest).length := by
      rw [ih, List.length_cons, Nat.add_right_comm]
    cases escaped with
    | true => exact later false
    | false =>
      simp only [escapeFrom, bareFrom]
      split
      · exact later true
      · split
        · exact congrArg Nat.succ (later false)
        · exact later false

theorem escapeFrom_of_bareFrom_nil {quote : Char} {escaped : Bool} {index : Nat} {text : List Char}
    (none : bareFrom quote escaped index text = []) : escapeFrom quote escaped text = text := by
  induction text generalizing escaped index with
  | nil => rfl
  | cons c rest ih =>
    cases escaped with
    | true => rw [escapeFrom, ih none]
    | false =>
      rw [bareFrom] at none
      rw [escapeFrom]
      split at none
      · rename_i backslash
        rw [if_pos backslash, ih none]
      · rename_i ordinary
        split at none
        · contradiction
        · rename_i other
          rw [if_neg ordinary, if_neg other, ih none]

/-- Escaping leaves a text alone just when there is nothing to escape. -/
theorem escape_eq_self_iff {quote : Char} {text : List Char} :
    escape quote text = text ↔ bare quote text = [] := by
  constructor
  · intro same
    have length := length_escapeFrom quote false 0 text
    rw [show escapeFrom quote false text = text from same] at length
    exact List.eq_nil_of_length_eq_zero (by rw [bare]; omega)
  · exact escapeFrom_of_bareFrom_nil

end Redex.Quoted
