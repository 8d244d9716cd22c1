import Redex.Proofs.Text.Enclosing

/-! Parentheses that match up. A text takes the number of parentheses that are open
before it to the number that are open after it, unless it closes one that was not
open. What takes every number to itself can be left out of a text or put into it.
So can the parentheses around two operands, with those between them. -/
namespace Redex.Grouping

/-- The number of parentheses that are open after a text, of so many that are open before it. -/
def depth? : (before : Nat) → List Char → Option Nat
  | before, [] => some before
  | before, c :: rest =>
    if c = '(' then depth? (before + 1) rest
    else if c = ')' then if before = 0 then none else depth? (before - 1) rest
    else depth? before rest

/-- Every parenthesis has its partner. -/
def Matched (text : List Char) : Prop := depth? 0 text = some 0

instance (text : List Char) : Decidable (Matched text) :=
  inferInstanceAs (Decidable (depth? 0 text = some 0))

variable {text more run before inner rest : List Char} {n m : Nat}

theorem depth?_append (n : Nat) (text more : List Char) :
    depth? n (text ++ more) = (depth? n text).bind fun m => depth? m more := by
  induction text generalizing n with
  | nil => rfl
  | cons c rest ih =>
    simp only [List.cons_append, depth?, ih]
    split
    · rfl
    · split
      · split <;> rfl
      · rfl

/-- A text that is read to its end opens as many more as it has more opening parentheses. -/
theorem depth?_count (read : depth? n text = some m) :
    m + text.count ')' = n + text.count '(' := by
  induction text generalizing n with
  | nil =>
    cases read
    rfl
  | cons c rest ih =>
    rw [depth?] at read
    split at read
    · rename_i opening
      subst opening
      have := ih read
      rw [List.count_cons_self, List.count_cons_of_ne (by decide)]
      omega
    · rename_i notOpening
      split at read
      · rename_i closing
        subst closing
        split at read
        · contradiction
        · have := ih read
          rw [List.count_cons_self, List.count_cons_of_ne (by decide)]
          omega
      · rename_i notClosing
        rw [List.count_cons_of_ne notOpening, List.count_cons_of_ne notClosing]
        exact ih read

theorem depth?_cons_blank {c : Char} (blank : isBlank c = true) (n : Nat) (rest : List Char) :
    depth? n (c :: rest) = depth? n rest := by
  rw [depth?, if_neg (isBlank_ne '(' blank (by decide)), if_neg (isBlank_ne ')' blank (by decide))]

theorem Wraps.depth?_opening (wraps : Wraps '(' run) (n : Nat) :
    depth? n run = some (n + run.count '(') := by
  induction run generalizing n with
  | nil => rfl
  | cons c rest ih =>
    by_cases paren : c = '('
    · subst paren
      rw [depth?, if_pos rfl, ih wraps.tail, List.count_cons_self, Nat.add_assoc, Nat.add_comm 1]
    · rw [depth?_cons_blank (wraps.head.resolve_left paren), ih wraps.tail,
        List.count_cons_of_ne paren]

theorem Wraps.depth?_closing (wraps : Wraps ')' run) (n : Nat) :
    depth? (n + run.count ')') run = some n := by
  induction run generalizing n with
  | nil => rfl
  | cons c rest ih =>
    by_cases paren : c = ')'
    · subst paren
      rw [depth?, if_neg (by decide), if_pos rfl, List.count_cons_self, if_neg (by omega)]
      exact ih wraps.tail n
    · rw [depth?_cons_blank (wraps.head.resolve_left paren), List.count_cons_of_ne paren]
      exact ih wraps.tail n

/-- What takes every number to itself does not matter. -/
theorem matched_leave_out (neutral : ∀ n, depth? n inner = some n) :
    Matched (before ++ inner ++ rest) ↔ Matched (before ++ rest) := by
  have same : (fun m => depth? m (inner ++ rest)) = fun m => depth? m rest := by
    funext m
    rw [depth?_append, neutral]
    rfl
  rw [Matched, Matched, List.append_assoc, depth?_append, depth?_append, same]

/-- Of a text that matches up, a part can be left out if as many parentheses close in it as open. -/
theorem Matched.leave_out_iff (matched : Matched (before ++ inner ++ rest)) :
    Matched (before ++ rest) ↔ inner.count '(' = inner.count ')' := by
  rw [Matched, List.append_assoc, depth?_append] at matched
  obtain ⟨n, first, matched⟩ := Option.bind_eq_some_iff.mp matched
  rw [depth?_append] at matched
  obtain ⟨m, second, third⟩ := Option.bind_eq_some_iff.mp matched
  have counted := depth?_count second
  have closed := depth?_count third
  rw [Matched, depth?_append, first]
  constructor
  · intro read
    have closed' := depth?_count read
    omega
  · intro even
    obtain rfl : n = m := by omega
    exact third

/-- The parentheses around two operands match those between them. -/
theorem Encloses.depth?_eq {opens between closes : List Char}
    (encloses : Encloses opens between closes) (n : Nat) :
    depth? n (opens ++ between ++ closes) = some n := by
  obtain ⟨opened, reclosed, closers, plus, openers, rfl, sign, closed, reopened, leftPaired,
    rightPaired⟩ := encloses
  have signed (m : Nat) : depth? m plus = some m := by rcases sign with rfl | rfl <;> rfl
  simp only [depth?_append, opened.depth?_opening, leftPaired, Option.bind_some,
    closed.depth?_closing, signed, reopened.depth?_opening, ← rightPaired, reclosed.depth?_closing]

end Redex.Grouping
