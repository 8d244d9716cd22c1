import Redex.Language.Coercion
import Redex.Proofs.Number.Characters
import Redex.Proofs.Text.Enclosing
import Redex.Proofs.Text.Quoting
import Redex.Syntax.Tree

/-! Programs of sums as they are written. An expression keeps every blank and
every parenthesis of its text, and has a tree whose spans are offsets into that
text. A literal denotes a value; the value of an expression is found from its
parts without regard to how it is written. -/
namespace Redex

namespace Quoted

/-- Contents of a string literal: on one line, without an unescaped quote of its own, and
with no escapes but those of the quotes and of the backslash itself. -/
def Readable (quote : Char) (contents : List Char) : Prop :=
  ReadsFrom (fun c => c ≠ quote ∧ c ≠ '\n') (fun c => c = '\\' ∨ c = '\'' ∨ c = '"') false contents

instance (quote : Char) (contents : List Char) : Decidable (Readable quote contents) :=
  decidableReadsFrom false contents

/-- A string literal in source text. -/
structure Literal where
  quote : Char
  contents : List Char
  style : quote = '\'' ∨ quote = '"'
  readable : Readable quote contents

namespace Literal

def text (x : Literal) : List Char := x.quote :: x.contents ++ [x.quote]

def value (x : Literal) : String := String.ofList (decode x.contents)

end Literal
end Quoted

namespace Written

/-- `Denotes quote? text v`: a literal with this text and this quote has the value `v`. -/
inductive Denotes : Option Char → List Char → Value → Prop where
  | null : Denotes none "null".toList .null
  | boolean (b : Bool) : Denotes none (if b then "true" else "false").toList (.boolean b)
  | number (x : Binary64) : Denotes none x.toText.toList (.number x)
  | string (x : Quoted.Literal) : Denotes (some x.quote) x.text (.string x.value)

/-- A literal of a program. Numbers are finite and not negative. -/
inductive Constant where
  | null
  | boolean (value : Bool)
  | number (index : Fin Binary64.finiteCount)
  | string (x : Quoted.Literal)

namespace Constant

def text : Constant → List Char
  | null => "null".toList
  | boolean b => (if b then "true" else "false").toList
  | number index => (Binary64.finite false index).toText.toList
  | string x => x.text

/-- The literal of the tree. -/
def literal : Constant → Literal
  | null => .null
  | boolean b => .boolean b
  | number index => .number (.finite false index)
  | string x => .string x.value

def value : Constant → Value
  | null => .null
  | boolean b => .boolean b
  | number index => .number (.finite false index)
  | string x => .string x.value

def quote? : Constant → Option Char
  | string x => some x.quote
  | _ => none

theorem denotes (c : Constant) : Denotes c.quote? c.text c.value := by
  cases c with
  | null => exact .null
  | boolean b => exact .boolean b
  | number index => exact .number _
  | string x => exact .string x

end Constant

/-- A run of blanks, line breaks included. -/
abbrev Blanks : Type := { run : List Char // ∀ c ∈ run, isBlank c = true }

/-- What may stand ahead of, between and behind statements. -/
abbrev Separator : Type := { run : List Char // ∀ c ∈ run, c = ';' ∨ isBlank c = true }

inductive Expression where
  | literal (constant : Constant)
  | parens (before : Blanks) (inner : Expression) (after : Blanks)
  | sum (left : Expression) (before after : Blanks) (right : Expression)

/-- The value of a sum. -/
def plus (v w : Value) : Except Failure Value :=
  if v.isString || w.isString then do
    let first ← v.toText
    let second ← w.toText
    return .string (first ++ second)
  else do
    let first ← v.toNumber
    let second ← w.toNumber
    return .number (first.add second)

/-- The text between the operands of a sum. -/
abbrev gap (before after : Blanks) : List Char := before.val ++ '+' :: after.val

namespace Expression

def text : Expression → List Char
  | literal constant => constant.text
  | parens before inner after => '(' :: before.val ++ inner.text ++ (after.val ++ [')'])
  | sum left before after right =>
    left.text ++ gap before after ++ right.text

/-- The tree of an expression that begins at `start`. The span of a literal is its text. A sum
spans both operands with their parentheses and without its own. -/
def tree (start : Nat) : Expression → Tree
  | literal constant =>
    .literal ⟨start, start + constant.text.length⟩ constant.literal
      (some (String.ofList constant.text))
  | parens before inner _ => inner.tree (start + ('(' :: before.val).length)
  | sum left before after right =>
    .binary ⟨start, start + (sum left before after right).text.length⟩ .addition
      (left.tree start)
      (right.tree (start + (left.text ++ gap before after).length))

def value : Expression → Except Failure Value
  | literal constant => .ok constant.value
  | parens _ inner _ => inner.value
  | sum left _ _ right => do
    let first ← left.value
    let second ← right.value
    plus first second

/-- The quote of the first string literal. -/
def quote? : Expression → Option Char
  | literal constant => constant.quote?
  | parens _ inner _ => inner.quote?
  | sum left _ _ right => left.quote?.or right.quote?

/-- The parentheses ahead of an expression, with the blanks among them. -/
def opens : Expression → List Char
  | literal _ => []
  | parens before inner _ => '(' :: before.val ++ inner.opens
  | sum _ _ _ _ => []

/-- The parentheses behind an expression. -/
def closes : Expression → List Char
  | literal _ => []
  | parens _ inner after => inner.closes ++ (after.val ++ [')'])
  | sum _ _ _ _ => []

/-- How often an expression is in parentheses. -/
def depth : Expression → Nat
  | literal _ => 0
  | parens _ inner _ => inner.depth + 1
  | sum _ _ _ _ => 0

/-- `Settles expression text`: `text` is the expression with a literal for its value in the
place of a sum. The parentheses around it stay, and so does an expression without a sum. -/
inductive Settles : Expression → List Char → Prop where
  | literal (constant : Constant) : Settles (.literal constant) constant.text
  | parens {before after : Blanks} {inner : Expression} {text : List Char} :
      Settles inner text →
      Settles (.parens before inner after) ('(' :: before.val ++ text ++ (after.val ++ [')']))
  | sum {left right : Expression} {before after : Blanks} {text : List Char} {v : Value} :
      (sum left before after right).value = .ok v →
      Denotes (sum left before after right).quote? text v →
      Settles (sum left before after right) text

theorem mem_of_opens {e : Expression} {c : Char} (member : c ∈ e.opens) : c ∈ e.text := by
  induction e with
  | parens before inner after ih =>
    rcases List.mem_append.mp member with member | member
    · exact List.mem_append_left _ (List.mem_append_left _ member)
    · exact List.mem_append_left _ (List.mem_append_right _ (ih member))
  | _ => exact absurd member List.not_mem_nil

theorem mem_of_closes {e : Expression} {c : Char} (member : c ∈ e.closes) : c ∈ e.text := by
  induction e with
  | parens before inner after ih =>
    rcases List.mem_append.mp member with member | member
    · exact List.mem_append_left _ (List.mem_append_right _ (ih member))
    · exact List.mem_append_right _ member
  | _ => exact absurd member List.not_mem_nil

end Expression

/-- An expression statement and what follows it. No evaluation reads the span. -/
structure Statement where
  span : Span
  expression : Expression
  after : Separator

structure Program where
  span : Span
  before : Separator
  statements : List Statement

namespace Statement

def text (s : Statement) : List Char := s.expression.text ++ s.after.val

def texts (statements : List Statement) : List Char := statements.flatMap text

/-- The trees of statements that begin at `start`. -/
def trees : Nat → List Statement → List Tree
  | _, [] => []
  | start, s :: rest =>
    .expressionStatement s.span (s.expression.tree start) :: trees (start + s.text.length) rest

/-- The value that statements end with. -/
def lastValue (default : Value) : List Statement → Except Failure Value
  | [] => .ok default
  | s :: rest => do lastValue (← s.expression.value) rest

/-- Statements with every expression settled and all else as it was. -/
inductive Settle : List Statement → List Char → Prop where
  | nil : Settle [] []
  | cons {s : Statement} {rest : List Statement} {text texts : List Char} :
      s.expression.Settles text → Settle rest texts →
      Settle (s :: rest) (text ++ s.after.val ++ texts)

end Statement

namespace Program

def text (p : Program) : List Char := p.before.val ++ Statement.texts p.statements

def tree (p : Program) : Tree := .program p.span (Statement.trees p.before.val.length p.statements)

/-- The value of the last statement; undefined where there is none. -/
def value (p : Program) : Except Failure Value := Statement.lastValue .undefined p.statements

def Settles (p : Program) (text : List Char) : Prop :=
  ∃ texts, Statement.Settle p.statements texts ∧ text = p.before.val ++ texts

end Program

end Written
end Redex
