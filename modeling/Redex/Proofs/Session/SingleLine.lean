import Redex.Proofs.Session.Joining

/-! Sessions for single lines. The lines that such a session compares are those of the two ends of
a range, or of the outer ends of two operands. A replacement goes no further, and keeps every
line. A concatenation goes on over the blanks that are among the parentheses it drops, and
loses the line feeds that are there, but no others. -/
namespace Redex.Session

variable {session : Session} {left right : Operand}

theorem quoteFor_cases (session : Session) (left right : Operand) :
    session.quoteFor left right = session.options.defaultQuote ∨
      session.quoteFor left right = '\'' ∨ session.quoteFor left right = '"' := by
  have styled {x : Operand} {quote : Char} (own : x.quote? = some quote) :
      quote = '\'' ∨ quote = '"' := (Quoted.quote?_eq_some.mp own).1
  cases leftOwn : left.quote? with
  | some quote =>
    rw [quoteFor, leftOwn]
    exact .inr (styled leftOwn)
  | none =>
    cases rightOwn : right.quote? with
    | some quote =>
      rw [quoteFor, leftOwn, rightOwn]
      exact .inr (styled rightOwn)
    | none =>
      rw [quoteFor, leftOwn, rightOwn]
      exact .inl rfl

theorem Operand.mem_of_mem_appended {quote c : Char} (member : c ∈ right.appended quote) :
    c = '\\' ∨ c ∈ right.text := by
  unfold appended at member
  split at member
  · split at member
    · exact .inr (Quoted.mem_of_mem_contents member)
    · exact (Quoted.mem_of_mem_escape member).imp_right Quoted.mem_of_mem_contents
  · exact .inr (Quoted.mem_of_mem_contents member)

/-- The literal that joins two operands is made of their characters, quotes and backslashes. -/
theorem mem_of_mem_joinedLiteral {c : Char} (member : c ∈ session.joinedLiteral left right) :
    c = session.quoteFor left right ∨ c = '\\' ∨ c ∈ left.text ∨ c ∈ right.text := by
  have between {contents : List Char}
      (added : c ∈ contents → c = '\\' ∨ c ∈ right.text)
      (member : c ∈ session.quoteFor left right :: left.contents ++ contents ++
        [session.quoteFor left right]) :
      c = session.quoteFor left right ∨ c = '\\' ∨ c ∈ left.text ∨ c ∈ right.text := by
    simp only [List.cons_append, List.mem_cons, List.mem_append, List.not_mem_nil, or_false]
      at member
    rcases member with quote | (inLeft | inRight) | quote
    · exact .inl quote
    · exact .inr (.inr (.inl (Quoted.mem_of_mem_contents inLeft)))
    · exact .inr ((added inRight).imp_right .inr)
    · exact .inl quote
  unfold joinedLiteral at member
  split at member
  · exact between Operand.mem_of_mem_appended member
  · apply between _ member
    intro escaped
    exact (Quoted.mem_of_mem_escape escaped).imp_right Quoted.mem_of_mem_contents

theorem unbroken_joinedLiteral (plain : session.options.defaultQuote ≠ '\n')
    (leftLine : '\n' ∉ left.text) (rightLine : '\n' ∉ right.text) :
    '\n' ∉ session.joinedLiteral left right := by
  intro member
  rcases mem_of_mem_joinedLiteral member with quote | backslash | inLeft | inRight
  · rcases session.quoteFor_cases left right with default | single | double
    · exact plain (default.symm.trans quote.symm)
    · rw [single] at quote
      contradiction
    · rw [double] at quote
      contradiction
  · contradiction
  · exact leftLine inLeft
  · exact rightLine inRight

theorem replaceRange_keepsLines {final : Session} {range : Span} {text : List Char}
    (sound : session.text.Sound) (single : session.options.singleLine = true)
    (accepted : outcome (replaceRange range text) session = (.ok (), final))
    (unbroken : '\n' ∉ text) : session.text.KeepsLines final.text := by
  obtain ⟨before, rest, -, change, oneLine⟩ := replaceRange_changes sound accepted
  rw [← List.append_nil (session.text.standing range),
    ← List.nil_append (session.text.standing range)] at change
  have loses := change.losesBreaks sound ((oneLine single).unbroken sound) unbroken
  exact loses.keepsLines_iff.mpr List.not_mem_nil

theorem concatenate_losesBreaks {final : Session} {left right : Span} (sound : session.text.Sound)
    (single : session.options.singleLine = true) (plain : session.options.defaultQuote ≠ '\n')
    (accepted : outcome (concatenate left right) session = (.ok (), final))
    (ordered : session.text.place left.stop ≤ session.text.place right.start) :
    ∃ before opens between closes rest,
      Joint session (session.operandAt left) (session.operandAt right)
        before opens between closes rest ∧
      session.text.LosesBreaks final.text before.length opens
        (session.text.place right.stop) closes := by
  obtain ⟨before, opens, between, closes, rest, joint, change, oneLine, -⟩ :=
    concatenate_changes sound accepted ordered
  -- The two lines that were compared are those of the ends of all that stands in the middle.
  have unbroken := (oneLine single).unbroken sound
  rw [joint.standing] at unbroken
  have clean : '\n' ∉ session.joinedLiteral (session.operandAt left) (session.operandAt right) := by
    simp only [List.mem_append, not_or] at unbroken
    exact unbroken_joinedLiteral plain unbroken.1.1 unbroken.2
  have split : opens ++ session.text.standing left ++ between ++ session.text.standing right ++
      closes = opens ++ (session.text.standing left ++ between ++ session.text.standing right) ++
      closes := by
    simp only [List.append_assoc]
  rw [split] at change
  have loses := change.losesBreaks sound unbroken clean
  have stop : (before ++ opens ++ (session.text.standing left ++ between ++
      session.text.standing right)).length = session.text.place right.stop := by
    simpa only [operandAt, List.append_assoc] using joint.apart.rightStop.symm
  rw [stop] at loses
  exact ⟨before, opens, between, closes, rest, joint, loses⟩

/-- In a session for single lines, an accepted replacement by a text without line feeds keeps every
line. An accepted concatenation of operands in order loses just the line feeds that are among the
parentheses it drops beside them, and keeps every line if there are none. -/
theorem accepted_operation_loses_breaks (reachable : Reachable session)
    (single : session.options.singleLine = true) (plain : session.options.defaultQuote ≠ '\n') :
    (∀ {range text final}, outcome (consumer (.replace range text)) session = (.ok (), final) →
      '\n' ∉ text.toList → session.text.KeepsLines final.text) ∧
    ∀ {left right final}, outcome (consumer (.concatenate left right)) session = (.ok (), final) →
      session.text.place left.stop ≤ session.text.place right.start →
      ∃ before opens between closes rest,
        Joint session (session.operandAt left) (session.operandAt right)
          before opens between closes rest ∧
        Grouping.Wraps '(' opens ∧ Grouping.Wraps ')' closes ∧
        session.text.LosesBreaks final.text before.length opens
          (session.text.place right.stop) closes ∧
        (session.text.KeepsLines final.text ↔ '\n' ∉ opens ++ closes) := by
  constructor
  · intro range text final accepted unbroken
    exact replaceRange_keepsLines reachable.sound single accepted unbroken
  · intro left right final accepted ordered
    obtain ⟨before, opens, between, closes, rest, joint, loses⟩ :=
      concatenate_losesBreaks reachable.sound single plain accepted ordered
    exact ⟨before, opens, between, closes, rest, joint, joint.wraps.1, joint.wraps.2, loses,
      loses.keepsLines_iff⟩

/-- A left operand on the line after its parenthesis. -/
theorem accepted_operation_loses_breaks_ahead :
    let session := ofText ['(', '\n', '\'', 'a', '\'', ')', ' ', '+', ' ', '\'', 'b', '\''] {}
    let replaced := (outcome (consumer (.replace ⟨9, 12⟩ "7")) session).2
    let joined := (outcome (consumer (.concatenate ⟨2, 5⟩ ⟨9, 12⟩)) session).2
    Reachable session ∧ session.options.singleLine = true ∧
    session.options.defaultQuote ≠ '\n' ∧
    (outcome (consumer (.replace ⟨9, 12⟩ "7")) session = (.ok (), replaced) ∧
      session.text.KeepsLines replaced.text) ∧
    outcome (consumer (.concatenate ⟨2, 5⟩ ⟨9, 12⟩)) session = (.ok (), joined) ∧
      ∃ opens closes, session.text.LosesBreaks joined.text 0 opens 12 closes ∧
        (opens ++ closes).count '\n' = 1 := by
  intro session replaced joined
  have reachable : Reachable session := .ofText _ _
  have lines := accepted_operation_loses_breaks reachable rfl (by decide)
  have first : outcome (consumer (.replace ⟨9, 12⟩ "7")) session = (.ok (), replaced) :=
    outcome_eq_of_ok (by rfl)
  have second : outcome (consumer (.concatenate ⟨2, 5⟩ ⟨9, 12⟩)) session = (.ok (), joined) :=
    outcome_eq_of_ok (by rfl)
  refine ⟨reachable, rfl, by decide, ⟨first, lines.1 first (by decide)⟩, second, ?_⟩
  obtain ⟨before, opens, between, closes, rest, joint, -, -, loses, -⟩ :=
    lines.2 second (by decide)
  have range : session.joinedRange (session.operandAt ⟨2, 5⟩) (session.operandAt ⟨9, 12⟩) =
      (0, 12) := by rfl
  have start : before.length = 0 := (Prod.mk.inj (joint.range.symm.trans range)).1
  have counts : session.text.live.count '\n' = 1 ∧ joined.text.live.count '\n' = 0 := by
    constructor <;> rfl
  rw [start] at loses
  have lost := loses.count
  rw [counts.1, counts.2, Nat.zero_add] at lost
  exact ⟨opens, closes, loses, lost⟩

/-- A line feed between the right operand and its parenthesis is on neither line compared. -/
theorem concatenate_joins_lines :
    let session := ofText ['\'', 'a', '\'', ' ', '+', ' ', '(', '\'', 'b', '\'', '\n', ')'] {}
    let final := (outcome (consumer (.concatenate ⟨0, 3⟩ ⟨7, 10⟩)) session).2
    Reachable session ∧ session.options.singleLine = true ∧
    session.options.defaultQuote ≠ '\n' ∧
    (session.text.place 0 ≤ session.text.place 3 ∧ session.text.place 3 ≤ session.text.place 7 ∧
      session.text.place 7 ≤ session.text.place 10) ∧
    outcome (consumer (.concatenate ⟨0, 3⟩ ⟨7, 10⟩)) session = (.ok (), final) ∧
    (session.text.live.count '\n' = 1 ∧ final.text.live.count '\n' = 0) ∧
    session.text.locate 12 = .ok ⟨12, 1, 1⟩ ∧ final.text.locate 12 = .ok ⟨4, 0, 4⟩ := by
  intro session final
  refine ⟨.ofText _ _, rfl, by decide, by decide, outcome_eq_of_ok (by rfl), ?_, ?_⟩
  · constructor <;> rfl
  · constructor <;> rfl

end Redex.Session
