import Redex.Proofs.Number.Numeric
import Redex.Proofs.Program.Sums
import Redex.Proofs.Session.Addressing
import Redex.Proofs.Session.Literal
import Redex.Proofs.Text.WellFormed

/-! Sums of a string and a number, from their source text. The value is the string with the number
as it is printed; the literal in the live text has the number as it is spelled in the source. The
two agree if the source spells the number as it is printed, and only then. -/
namespace Redex

theorem Numeral.Spells.plain {text : List Char} {x : Decimal} (spells : Spells text x) :
    ∀ c ∈ text, Plain c := by
  intro c member
  obtain digit | mark := spells.characters c member
  · exact plain_of_isDigit digit
  · exact plain_of_all (by decide) c mark

namespace Tree

/-- The tree of an expression, alone or as the only statement there is. -/
inductive Wraps (expression : Tree) : Tree → Prop
  | bare : Wraps expression expression
  | statement (span : Span) {tree : Tree} (inner : Wraps expression tree) :
      Wraps expression (.expressionStatement span tree)
  | program (span : Span) {tree : Tree} (inner : Wraps expression tree) :
      Wraps expression (.program span [tree])

variable {σ : Type} {consumer : Consumer σ} {state next : σ} {tree expression : Tree}
  {v : Spanned Value}

/-- What is around an expression hands its value on. -/
theorem Wraps.outcome_node (wraps : Wraps expression tree)
    (ran : outcome (Evaluation.node consumer expression) state = (.ok (.value v), next)) :
    ∃ spec, Evaluation.Hands spec v ∧
      outcome (Evaluation.node consumer tree) state = (.ok spec, next) := by
  induction wraps with
  | bare => exact ⟨_, .inl rfl, ran⟩
  | statement span inner ih =>
    obtain ⟨spec, hands, done⟩ := ih
    refine ⟨_, .inr rfl, ?_⟩
    rw [Evaluation.node, outcome_bind_of_ok done, hands.getValue]
    rfl
  | program span inner ih =>
    obtain ⟨spec, hands, done⟩ := ih
    refine ⟨_, .inr rfl, ?_⟩
    rw [Evaluation.node, Evaluation.statements, outcome_bind_of_ok done, hands.getValue]
    rfl

theorem Wraps.evaluate (wraps : Wraps expression tree)
    (ran : outcome (Evaluation.node consumer expression) state = (.ok (.value v), next)) :
    (tree.evaluate consumer).run state = (.ok (.normal v), next) := by
  obtain ⟨spec, hands, done⟩ := wraps.outcome_node ran
  rw [evaluate_eq_outcome, complete, outcome_bind_of_ok done]
  rcases hands with rfl | rfl
  · rfl
  · rfl

end Tree

/-- A string literal and a number literal that are the operands of a sum, as they are written, and
what is written around and between them. The text between the quotes of the string is closed by no
other quote. -/
structure Mixed where
  stringFirst : Bool
  quote : Char
  contents : List Char
  value : String
  spelling : List Char
  before : List Char
  between : List Char
  rest : List Char
  style : quote = '\'' ∨ quote = '"'
  wellFormed : Quoted.WellFormed quote contents
  spells : ∃ x, Numeral.Spells spelling x

namespace Mixed

/-- What belongs to the string and what belongs to the number, as their operands are ordered. -/
def inOrder {α : Type} (m : Mixed) (string number : α) : α × α :=
  if m.stringFirst then (string, number) else (number, string)

/-- The value of the number literal. -/
def number (m : Mixed) : Binary64 := .ofText (String.ofList m.spelling)

def first (m : Mixed) : List Char :=
  (m.inOrder (m.quote :: m.contents ++ [m.quote]) m.spelling).1

def second (m : Mixed) : List Char :=
  (m.inOrder (m.quote :: m.contents ++ [m.quote]) m.spelling).2

def source (m : Mixed) : List Char := m.before ++ m.first ++ m.between ++ m.second ++ m.rest

def left (m : Mixed) : Span := ⟨m.before.length, (m.before ++ m.first).length⟩

def right (m : Mixed) : Span :=
  ⟨(m.before ++ m.first ++ m.between).length, (m.before ++ m.first ++ m.between ++ m.second).length⟩

/-- The tree of the sum. -/
def sum (m : Mixed) (span : Span) (raw raw' : Option String) : Tree :=
  let operands := m.inOrder (Literal.string m.value) (.number m.number)
  .binary span .addition (.literal m.left operands.1 raw) (.literal m.right operands.2 raw')

/-- What belongs to the string joined with what belongs to the number. -/
def join {α : Type} [Append α] (m : Mixed) (string number : α) : α :=
  (m.inOrder string number).1 ++ (m.inOrder string number).2

/-- The value of the string joined with the number as it is printed. -/
def result (m : Mixed) : String := m.join m.value m.number.toText

variable (m : Mixed) {options : Options}

theorem join_inj {string text text' : List Char} :
    m.join string text = m.join string text' ↔ text = text' := by
  unfold join inOrder
  cases m.stringFirst with
  | true => exact List.append_right_inj string
  | false => exact List.append_left_inj string

theorem toList_join (string text : String) :
    (m.join string text).toList = m.join string.toList text.toList := by
  unfold join inOrder
  cases m.stringFirst with
  | true => exact String.toList_append
  | false => exact String.toList_append

/-- Without backslashes, a text of the number denotes itself next to the contents. -/
theorem decode_join {text : List Char} (plain : ∀ c ∈ text, Plain c) :
    Quoted.decode (m.join m.contents text) = m.join (Quoted.decode m.contents) text := by
  obtain ⟨reads, same⟩ := Quoted.readable_of_plain m.style plain
  unfold join inOrder
  cases m.stringFirst with
  | true => exact (Quoted.decode_append m.wellFormed).trans (congrArg _ same)
  | false => exact (Quoted.decode_append reads).trans (congrArg (· ++ _) same)

theorem plain_spelling : ∀ c ∈ m.spelling, Plain c := m.spells.elim fun _ spells => spells.plain

theorem quote?_spelling : Quoted.quote? m.spelling = none := Quoted.quote?_of_plain m.plain_spelling

theorem wellFormed_spelling : Quoted.WellFormed m.quote m.spelling := by
  apply Quoted.wellFormed_of_plain m.style
  intro c member
  obtain ⟨backslash, single, double, -⟩ := m.plain_spelling c member
  exact ⟨backslash, single, double⟩

theorem quote?_literal : Quoted.quote? (m.quote :: m.contents ++ [m.quote]) = some m.quote :=
  Quoted.quote?_eq_some.mpr ⟨m.style, m.contents, rfl⟩

/-- Whichever way the two operands are merged, the literal has the quote of the string, and what is
written in both. -/
theorem joinedLiteral_eq {session : Session} {left right : Session.Operand}
    (first : left.text = m.first) (second : right.text = m.second) :
    session.joinedLiteral left right = m.quote :: m.join m.contents m.spelling ++ [m.quote] := by
  have spelled : Quoted.contents m.spelling = m.spelling :=
    Quoted.contents_unquoted m.quote?_spelling
  have written : Quoted.contents (m.quote :: m.contents ++ [m.quote]) = m.contents :=
    Quoted.contents_quoted m.style m.contents
  -- Next to plain text, the quote is that of the string, and there is none to escape.
  have whole (quote : session.quoteFor left right = m.quote)
      (none : Quoted.bare m.quote right.contents = [])
      (contents : left.contents ++ right.contents = m.join m.contents m.spelling) :
      session.joinedLiteral left right = m.quote :: m.join m.contents m.spelling ++ [m.quote] := by
    rw [Session.joinedLiteral_of_bare_eq_nil (quote ▸ none), quote, contents]
  cases order : m.stringFirst with
  | true =>
    simp only [Mixed.first, Mixed.second, inOrder, order, if_true] at first second
    apply whole
    · rw [Session.quoteFor, Session.Operand.quote?, first, m.quote?_literal, Option.some_or,
        Option.getD_some]
    · rw [Session.Operand.contents, second, spelled]
      exact m.wellFormed_spelling.bare_eq_nil
    · simp only [Session.Operand.contents, first, second, written, spelled, join, inOrder, order,
        if_true]
  | false =>
    simp only [Mixed.first, Mixed.second, inOrder, order, Bool.false_eq_true, if_false]
      at first second
    apply whole
    · rw [Session.quoteFor, Session.Operand.quote?, first, m.quote?_spelling, Option.none_or,
        Session.Operand.quote?, second, m.quote?_literal, Option.getD_some]
    · rw [Session.Operand.contents, second, written]
      exact m.wellFormed.bare_eq_nil
    · simp only [Session.Operand.contents, first, second, written, spelled, join, inOrder, order,
        Bool.false_eq_true, if_false]

section
variable {m} {σ : Type} {consumer : Consumer σ} {state next : σ} {span : Span}
  {raw raw' : Option String}

/-- The sum evaluates to its result once its step is accepted. -/
theorem outcome_sum
    (accepted : outcome (consumer (.concatenate m.left m.right)) state = (.ok (), next)) :
    outcome (Evaluation.node consumer (m.sum span raw raw')) state =
      (.ok (.value ⟨.string m.result, some (m.left.cover m.right)⟩), next) := by
  have added {v w : Value} {u : String} (string : (v.isString || w.isString) = true)
      (plus : Written.plus v w = .ok (.string u)) :
      outcome (Evaluation.add consumer span m.left m.right ⟨v, some m.left⟩ ⟨w, some m.right⟩)
        state = (.ok (.value ⟨.string u, some (m.left.cover m.right)⟩), next) :=
    Written.outcome_add_strings string plus accepted
  cases order : m.stringFirst with
  | true =>
    simp only [sum, result, join, inOrder, order, if_true]
    exact added (v := .string m.value) (w := .number m.number) rfl rfl
  | false =>
    simp only [sum, result, join, inOrder, order, Bool.false_eq_true, if_false]
    exact added (v := .number m.number) (w := .string m.value) rfl rfl

end

/-- In a new session both operands stand where they are written. -/
theorem standing_first (options : Options) :
    (Session.ofText m.source options).text.standing m.left = m.first := by
  have live : m.source = m.before ++ m.first ++ (m.between ++ m.second ++ m.rest) := by
    simp only [source, List.append_assoc]
  exact LiveText.standing_eq live rfl rfl

theorem standing_second (options : Options) :
    (Session.ofText m.source options).text.standing m.right = m.second :=
  LiveText.standing_eq rfl rfl rfl

theorem ordered : m.left.start ≤ m.left.stop ∧ m.left.stop ≤ m.right.start ∧
    m.right.start ≤ m.right.stop := by
  simp only [left, right, List.length_append]
  omega

theorem within : (Reduction.concatenate m.left m.right).Within m.source.length := by
  simp only [Reduction.Within, left, right, source, List.length_append]
  omega

theorem allows (lines : options.singleLine = true → '\n' ∉ m.first ++ m.between ++ m.second) :
    (Session.ofText m.source options).Allows ⟨m.left.start, m.right.stop⟩ := by
  intro single
  have stands : (LiveText.ofText m.source).standing ⟨m.left.start, m.right.stop⟩ =
      m.first ++ m.between ++ m.second := by
    have live : m.source = m.before ++ (m.first ++ m.between ++ m.second) ++ m.rest := by
      simp only [source, List.append_assoc]
    have last : m.right.stop = (m.before ++ (m.first ++ m.between ++ m.second)).length := by
      simp only [right, List.append_assoc]
    exact LiveText.standing_eq live rfl last
  refine (LiveText.sound_ofText m.source).oneLine m.within.1.1 m.within.2.2 ?_ ?_
  · obtain ⟨leftOrdered, apart, rightOrdered⟩ := m.ordered
    exact leftOrdered.trans (apart.trans rightOrdered)
  · rw [stands]
    exact lines single

/-- Evaluated in a new session on its source, the sum of a string and a number completes with the
string joined with the number as it is printed. The operands are merged into a literal of the
contents joined with the number as it is spelled. So the literal holds what the value does if and
only if the number is spelled as it is printed. -/
theorem evaluation_keeps_spelling (m : Mixed) (options : Options)
    (lines : options.singleLine = true → '\n' ∉ m.first ++ m.between ++ m.second)
    {span : Span} {raw raw' : Option String} {tree : Tree} (wraps : (m.sum span raw raw').Wraps tree) :
    let session := Session.ofText m.source options
    let range := session.joinedRange (session.operandAt m.left) (session.operandAt m.right)
    let printed := m.number.toText.toList
    ∃ final,
      (Session.evaluate tree).run session =
        (.ok (.normal ⟨.string m.result, some (m.left.cover m.right)⟩), final) ∧
      final.text.live = m.source.take range.1 ++
        (m.quote :: m.join m.contents m.spelling ++ [m.quote]) ++ m.source.drop range.2 ∧
      final.frames = [final.text.live] ∧
      (m.join m.contents m.spelling = m.join m.contents printed ↔ m.spelling = printed) ∧
      (Quoted.decode m.contents = m.value.toList →
        (Quoted.decode (m.join m.contents m.spelling) = m.result.toList ↔ m.spelling = printed)) := by
  intro session range printed
  have sound : session.text.Sound := LiveText.sound_ofText m.source
  obtain ⟨leftOrdered, apart, rightOrdered⟩ := m.ordered
  obtain ⟨edited, accepted⟩ := Session.outcome_of_ordered_operands sound m.within (m.allows lines)
    (Nat.not_lt_of_le leftOrdered) (Nat.not_lt_of_le rightOrdered)
  obtain ⟨before, opens, between, closes, rest, joint, change, -⟩ :=
    Session.concatenate_changes sound accepted apart
  refine ⟨session.shown edited, wraps.evaluate (outcome_sum accepted), ?_, rfl, m.join_inj, ?_⟩
  · have literal : session.joinedLiteral (session.operandAt m.left) (session.operandAt m.right) =
        m.quote :: m.join m.contents m.spelling ++ [m.quote] :=
      m.joinedLiteral_eq (m.standing_first options) (m.standing_second options)
    show (session.shown edited).text.live = session.text.live.take _ ++ _ ++ session.text.live.drop _
    rw [joint.take_eq, joint.drop_eq, ← literal]
    exact change.rewritten
  · intro denotes
    rw [m.decode_join m.plain_spelling, Mixed.result, m.toList_join, ← denotes]
    exact m.join_inj

/-- A number with an exponent, ahead of the string. -/
theorem evaluation_keeps_spelling_of_exponent :
    let m : Mixed := ⟨false, '"', ['a'], "a", ['1', 'e', '1'], [], ['+'], [';'], .inr rfl, by decide,
      _, Numeral.decimal?_eq_some_iff.mp rfl⟩
    let tree := m.sum ⟨0, 7⟩ (some "1e1") none
    ('\n' ∉ m.first ++ m.between ++ m.second) ∧ tree.Wraps (.program ⟨0, 8⟩ [tree]) ∧
      Quoted.decode m.contents = m.value.toList ∧
      ∃ final,
        (Session.evaluate (.program ⟨0, 8⟩ [tree])).run (.ofText m.source {}) =
          (.ok (.normal ⟨.string "10a", some ⟨0, 7⟩⟩), final) ∧
        final.text.live = ['"', '1', 'e', '1', 'a', '"', ';'] ∧
        Quoted.decode (m.join m.contents m.spelling) ≠ "10a".toList := by
  intro m tree
  have lines : '\n' ∉ m.first ++ m.between ++ m.second := by decide
  have wraps : tree.Wraps (.program ⟨0, 8⟩ [tree]) := .program _ .bare
  have denotes : Quoted.decode m.contents = m.value.toList := by decide
  have printed : m.number.toText = "10" := by decide +kernel
  obtain ⟨final, evaluated, live, -, -, agrees⟩ :=
    evaluation_keeps_spelling m {} (fun _ => lines) wraps
  have result : m.result = "10a" := by
    rw [Mixed.result, printed]
    decide
  refine ⟨lines, wraps, denotes, final, result ▸ evaluated, live.trans (by decide +kernel), ?_⟩
  rw [← result]
  intro same
  have spelled := (agrees denotes).mp same
  rw [printed] at spelled
  exact absurd spelled (by decide)

/-- The literal for `'a' + 1.0` has a point and a zero that the value has not. -/
theorem evaluation_shows_other_text :
    let tree : Tree := .binary ⟨0, 9⟩ .addition (.literal ⟨0, 3⟩ (.string "a") none)
      (.literal ⟨6, 9⟩ (.number (.ofText "1.0")) none)
    ∃ final,
      (Session.evaluate tree).run (.ofText ['\'', 'a', '\'', ' ', '+', ' ', '1', '.', '0'] {}) =
        (.ok (.normal ⟨.string "a1", some ⟨0, 9⟩⟩), final) ∧
      final.text.live = ['\'', 'a', '1', '.', '0', '\''] ∧
      Quoted.decode ['a', '1', '.', '0'] ≠ "a1".toList := by
  intro tree
  let m : Mixed := ⟨true, '\'', ['a'], "a", ['1', '.', '0'], [], [' ', '+', ' '], [], .inl rfl,
    by decide, _, Numeral.decimal?_eq_some_iff.mp rfl⟩
  have printed : m.number.toText = "1" := by decide +kernel
  have result : m.result = "a1" := by
    rw [Mixed.result, printed]
    decide
  have accepted : outcome (Session.consumer (.concatenate m.left m.right)) (.ofText m.source {}) =
      (.ok (), (outcome (Session.consumer (.concatenate m.left m.right)) (.ofText m.source {})).2) :=
    outcome_eq_of_ok (by rfl)
  have ran := @outcome_sum m _ _ _ _ ⟨0, 9⟩ none none accepted
  rw [result] at ran
  exact ⟨_, Tree.Wraps.bare.evaluate ran, by decide +kernel, by decide⟩

end Mixed
end Redex
