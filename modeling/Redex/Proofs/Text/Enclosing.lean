import Redex.Text.Grouping

/-! Finding the parentheses around two operands. Each walk takes in a run of
parentheses of one kind with blanks among them, and what it counts is how many
parentheses the run holds. Where the runs next to the operands match, the span
that is found is exactly as wide as they are, and where a span is found they match. -/
namespace Redex.Grouping

/-- Made of one parenthesis, over and over, and blanks. -/
def Wraps (paren : Char) (run : List Char) : Prop := ∀ c ∈ run, c = paren ∨ isBlank c = true

namespace Wraps

variable {paren : Char} {run more : List Char}

theorem nil : Wraps paren [] := fun _ member => nomatch member

theorem cons {c : Char} (first : c = paren ∨ isBlank c = true) (wraps : Wraps paren run) :
    Wraps paren (c :: run) :=
  List.forall_mem_cons.mpr ⟨first, wraps⟩

theorem append (first : Wraps paren run) (second : Wraps paren more) :
    Wraps paren (run ++ more) := by
  intro c member
  exact (List.mem_append.mp member).elim (first c) (second c)

theorem head {c : Char} (wraps : Wraps paren (c :: run)) : c = paren ∨ isBlank c = true :=
  wraps c List.mem_cons_self

theorem tail {c : Char} (wraps : Wraps paren (c :: run)) : Wraps paren run :=
  fun d member => wraps d (List.mem_cons_of_mem c member)

theorem reverse (wraps : Wraps paren run) : Wraps paren run.reverse :=
  fun c member => wraps c (List.mem_reverse.mp member)

end Wraps

theorem isBlank_ne {c : Char} (paren : Char) (blank : isBlank c = true)
    (solid : isBlank paren = false) : c ≠ paren := by
  rintro rfl
  exact absurd (blank.symm.trans solid) (by decide)

theorem between?_closers {closers : List Char} (wraps : Wraps ')' closers)
    (closing opening : Nat) (rest : List Char) :
    between? false closing opening (closers ++ rest) =
      between? false (closing + closers.count ')') opening rest := by
  induction closers generalizing closing with
  | nil => rfl
  | cons c run ih =>
    by_cases paren : c = ')'
    · subst paren
      simp only [List.cons_append, between?, and_self, if_true, ih wraps.tail,
        List.count_cons_self]
      rw [Nat.add_assoc, Nat.add_comm 1]
    · have blank := wraps.head.resolve_left paren
      have plus := isBlank_ne '+' blank (by decide)
      have other := isBlank_ne '(' blank (by decide)
      simp only [List.cons_append, between?, paren, plus, other, false_and, if_false, blank,
        if_true, ih wraps.tail, List.count_cons_of_ne paren]

theorem between?_openers {openers : List Char} (wraps : Wraps '(' openers) (seen : Bool)
    (closing opening : Nat) :
    between? seen closing opening openers = some (closing, opening + openers.count '(') := by
  induction openers generalizing seen opening with
  | nil => rfl
  | cons c run ih =>
    by_cases paren : c = '('
    · subst paren
      have closer : '(' ≠ ')' := by decide
      have plus : '(' ≠ '+' := by decide
      simp only [between?, closer, plus, false_and, if_false, if_true, ih wraps.tail,
        List.count_cons_self]
      rw [Nat.add_assoc, Nat.add_comm 1]
    · have blank := wraps.head.resolve_left paren
      have closer := isBlank_ne ')' blank (by decide)
      have plus := isBlank_ne '+' blank (by decide)
      simp only [between?, closer, plus, false_and, if_false, paren, blank, if_true,
        ih wraps.tail, List.count_cons_of_ne paren]

/-- Between the operands of a sum stand closing parentheses, a plus and opening ones. The walk also
takes in operands without a plus between them. -/
theorem between?_parts {closers plus openers : List Char} (closed : Wraps ')' closers)
    (sign : plus = [] ∨ plus = ['+']) (opened : Wraps '(' openers) :
    between? false 0 0 (closers ++ plus ++ openers) =
      some (closers.count ')', openers.count '(') := by
  rw [List.append_assoc, between?_closers closed, Nat.zero_add]
  rcases sign with rfl | rfl
  · rw [List.nil_append, between?_openers opened, Nat.zero_add]
  · have plus : between? false (closers.count ')') 0 ('+' :: openers) =
        between? true (closers.count ')') 0 openers := by
      simp [between?]
    rw [List.singleton_append, plus, between?_openers opened, Nat.zero_add]

/-- What the three walks start from, in a text given by its pieces. -/
theorem enclosing?_of_pieces {live before opens left between right closes rest : List Char}
    (stands : live = before ++ opens ++ left ++ between ++ right ++ closes ++ rest) :
    enclosing? live (before ++ opens).length (before ++ opens ++ left).length
        (before ++ opens ++ left ++ between).length
        (before ++ opens ++ left ++ between ++ right).length = (do
      let (closing, opening) ← between? false 0 0 between
      let ahead ← reach? '(' closing (opens.reverse ++ before.reverse)
      let behind ← reach? ')' opening (closes ++ rest)
      return ((before ++ opens).length - ahead,
        (before ++ opens ++ left ++ between ++ right).length + behind)) := by
  have gap : (live.take (before ++ opens ++ left ++ between).length).drop
      (before ++ opens ++ left).length = between := by
    rw [stands, List.append_assoc _ right, List.append_assoc _ (right ++ closes), List.take_left,
      List.drop_left]
  have ahead : (live.take (before ++ opens).length).reverse = opens.reverse ++ before.reverse := by
    rw [stands]
    simp only [List.append_assoc (before ++ opens)]
    rw [List.take_left, List.reverse_append]
  have behind : live.drop (before ++ opens ++ left ++ between ++ right).length = closes ++ rest := by
    rw [stands, List.append_assoc _ closes, List.drop_left]
  have fits : (before ++ opens ++ left).length ≤ (before ++ opens ++ left ++ between).length ∧
      (before ++ opens ++ left ++ between).length ≤ live.length := by
    rw [stands]
    simp only [List.length_append]
    omega
  rw [enclosing?, if_pos fits, gap, ahead, behind]

theorem reach?_le {paren : Char} {count : Nat} {run : List Char} {reached : Nat}
    (found : reach? paren count run = some reached) : reached ≤ run.length := by
  induction run generalizing count reached with
  | nil =>
    cases count with
    | zero =>
      cases found
      exact Nat.le_refl _
    | succ => contradiction
  | cons c rest ih =>
    cases count with
    | zero =>
      cases found
      exact Nat.zero_le _
    | succ count =>
      rw [reach?] at found
      split at found
      · obtain ⟨further, reached, rfl⟩ := Option.map_eq_some_iff.mp found
        exact Nat.succ_le_succ (ih reached)
      · split at found
        · obtain ⟨further, reached, rfl⟩ := Option.map_eq_some_iff.mp found
          exact Nat.succ_le_succ (ih reached)
        · contradiction

/-- An enclosing span is found around operands in order, and within the text. -/
theorem enclosing?_bounds {live : List Char} {leftStart leftStop rightStart rightStop : Nat}
    {outer : Nat × Nat}
    (found : enclosing? live leftStart leftStop rightStart rightStop = some outer) :
    leftStop ≤ rightStart ∧ outer.1 ≤ leftStart ∧ rightStop ≤ outer.2 ∧
      (rightStop ≤ live.length → outer.2 ≤ live.length) := by
  unfold enclosing? at found
  split at found
  · rename_i ordered
    simp only [Option.bind_eq_bind, Option.bind_eq_some_iff, Option.pure_def,
      Option.some.injEq] at found
    obtain ⟨counts, -, before, -, after, behind, rfl⟩ := found
    have further := reach?_le behind
    rw [List.length_drop] at further
    refine ⟨ordered.1, Nat.sub_le _ _, Nat.le_add_right _ _, ?_⟩
    intro inside
    show rightStop + after ≤ live.length
    omega
  · contradiction

theorem between?_openers_eq_some {openers : List Char} {closing opening : Nat} {counts : Nat × Nat}
    (found : between? true closing opening openers = some counts) :
    Wraps '(' openers ∧ counts = (closing, opening + openers.count '(') := by
  induction openers generalizing opening with
  | nil => exact ⟨.nil, (Option.some.inj found).symm⟩
  | cons c rest ih =>
    simp only [between?, Bool.true_eq_false, and_false, if_false] at found
    split at found
    · rename_i paren
      subst paren
      obtain ⟨wraps, rfl⟩ := ih found
      refine ⟨.cons (.inl rfl) wraps, ?_⟩
      rw [List.count_cons_self, Nat.add_assoc, Nat.add_comm 1]
    · rename_i other
      split at found
      · rename_i blank
        obtain ⟨wraps, rfl⟩ := ih found
        exact ⟨.cons (.inr blank) wraps, by rw [List.count_cons_of_ne other]⟩
      · contradiction

/-- What is between two operands is taken in only if it is closing parentheses, at most one plus,
and opening parentheses. -/
theorem between?_eq_some {text : List Char} {closing opening : Nat} {counts : Nat × Nat}
    (found : between? false closing opening text = some counts) :
    ∃ closers plus openers, text = closers ++ plus ++ openers ∧ (plus = [] ∨ plus = ['+']) ∧
      Wraps ')' closers ∧ Wraps '(' openers ∧
      counts = (closing + closers.count ')', opening + openers.count '(') := by
  induction text generalizing closing with
  | nil => exact ⟨[], [], [], rfl, .inl rfl, .nil, .nil, (Option.some.inj found).symm⟩
  | cons c rest ih =>
    simp only [between?, and_true] at found
    split at found
    · rename_i paren
      subst paren
      obtain ⟨closers, plus, openers, rfl, sign, closed, opened, rfl⟩ := ih found
      refine ⟨')' :: closers, plus, openers, rfl, sign, .cons (.inl rfl) closed, opened, ?_⟩
      rw [List.count_cons_self, Nat.add_assoc, Nat.add_comm 1]
    · rename_i notClosing
      split at found
      · rename_i sign
        subst sign
        obtain ⟨opened, rfl⟩ := between?_openers_eq_some found
        exact ⟨[], ['+'], rest, rfl, .inr rfl, .nil, opened, rfl⟩
      · split at found
        · rename_i paren
          subst paren
          obtain ⟨opened, rfl⟩ := between?_openers_eq_some found
          refine ⟨[], [], '(' :: rest, rfl, .inl rfl, .nil, .cons (.inl rfl) opened, ?_⟩
          rw [List.count_cons_self, Nat.add_assoc, Nat.add_comm 1]
          rfl
        · split at found
          · rename_i blank
            obtain ⟨closers, plus, openers, rfl, sign, closed, opened, rfl⟩ := ih found
            refine ⟨c :: closers, plus, openers, rfl, sign, .cons (.inr blank) closed, opened, ?_⟩
            rw [List.count_cons_of_ne notClosing]
          · contradiction

/-- A walk takes in its parenthesis as often as it was asked to, and else only blanks. -/
theorem reach?_eq_some {paren : Char} {count : Nat} {run : List Char} {reached : Nat}
    (found : reach? paren count run = some reached) :
    Wraps paren (run.take reached) ∧ (run.take reached).count paren = count := by
  induction run generalizing count reached with
  | nil =>
    cases count with
    | zero =>
      cases found
      exact ⟨.nil, rfl⟩
    | succ => contradiction
  | cons c rest ih =>
    cases count with
    | zero =>
      cases found
      exact ⟨.nil, rfl⟩
    | succ count =>
      rw [reach?] at found
      split at found
      · rename_i paren
        subst paren
        obtain ⟨further, inner, rfl⟩ := Option.map_eq_some_iff.mp found
        obtain ⟨wraps, counted⟩ := ih inner
        rw [List.take_succ_cons, List.count_cons_self, counted]
        exact ⟨.cons (.inl rfl) wraps, rfl⟩
      · rename_i other
        split at found
        · rename_i blank
          obtain ⟨further, inner, rfl⟩ := Option.map_eq_some_iff.mp found
          obtain ⟨wraps, counted⟩ := ih inner
          rw [List.take_succ_cons, List.count_cons_of_ne other, counted]
          exact ⟨.cons (.inr blank) wraps, rfl⟩
        · contradiction

/-- Between two operands stand closing parentheses, at most one plus, and opening parentheses. The
closing ones have their partners in front of the left operand, the others behind the right one. -/
structure Encloses (opens between closes : List Char) : Prop where
  opened : Wraps '(' opens
  closed : Wraps ')' closes
  paired : ∃ closers plus openers, between = closers ++ plus ++ openers ∧
    (plus = [] ∨ plus = ['+']) ∧ Wraps ')' closers ∧ Wraps '(' openers ∧
    opens.count '(' = closers.count ')' ∧ closes.count ')' = openers.count '('

/-- A span is found around two operands only if what is next to them encloses them. -/
theorem enclosing?_eq_some {live before opens left between right closes rest : List Char}
    (stands : live = before ++ opens ++ left ++ between ++ right ++ closes ++ rest)
    (found : enclosing? live (before ++ opens).length (before ++ opens ++ left).length
        (before ++ opens ++ left ++ between).length
        (before ++ opens ++ left ++ between ++ right).length =
      some (before.length, (before ++ opens ++ left ++ between ++ right ++ closes).length)) :
    Encloses opens between closes := by
  rw [enclosing?_of_pieces stands] at found
  simp only [Option.bind_eq_bind, Option.bind_eq_some_iff, Option.pure_def,
    Option.some.injEq, Prod.mk.injEq] at found
  obtain ⟨⟨closing, opening⟩, counts, reachedLeft, foundLeft, reachedRight, foundRight, first,
    last⟩ := found
  obtain ⟨closers, plus, openers, split, sign, shut, reopened, same⟩ := between?_eq_some counts
  have within := reach?_le foundLeft
  obtain ⟨opened, paired⟩ := reach?_eq_some foundLeft
  obtain ⟨reclosed, repaired⟩ := reach?_eq_some foundRight
  simp only [List.length_append, List.length_reverse] at within first last
  obtain rfl : reachedLeft = opens.reverse.length := by
    rw [List.length_reverse]
    omega
  obtain rfl : reachedRight = closes.length := by omega
  rw [List.take_left] at opened paired reclosed repaired
  rw [Nat.zero_add, Nat.zero_add] at same
  cases same
  refine ⟨?_, reclosed, closers, plus, openers, split, sign, shut, reopened, ?_, repaired⟩
  · rw [← List.reverse_reverse opens]
    exact opened.reverse
  · exact List.count_reverse.symm.trans paired

end Redex.Grouping
