import Redex.Language.Failure
import Redex.Language.Value

/-! Completion records. A value or a target that is absent is what ECMA-262
calls empty. -/
namespace Redex

inductive CompletionType where
  | normal
  | breaks
  | continues
  | returns
  | throws
  deriving DecidableEq, Repr

structure Completion where
  type : CompletionType
  value : Option Value
  target : Option String
  span : Option Span

/-- Why a computation stops before it has a value: with an abrupt completion that
goes to the nearest caller that handles it, or for good. -/
inductive Abrupt where
  | completion (completion : Completion)
  | failure (failure : Failure)

namespace Completion

def normal (v : Spanned Value) : Completion := ⟨.normal, some v.value, none, v.span⟩

def empty (span : Option Span) : Completion := ⟨.normal, none, none, span⟩

def thrown (v : Spanned Value) : Completion := ⟨.throws, some v.value, none, v.span⟩

def returned (v : Spanned Value) : Completion := ⟨.returns, some v.value, none, v.span⟩

def breakTo (target : Option String) (span : Option Span) : Completion :=
  ⟨.breaks, none, target, span⟩

def continueTo (target : Option String) (span : Option Span) : Completion :=
  ⟨.continues, none, target, span⟩

def isAbrupt (c : Completion) : Bool := decide (c.type ≠ .normal)

/-- The value with its span, if there is one. -/
def spanned? (c : Completion) : Option (Spanned Value) := c.value.map (⟨·, c.span⟩)

/-- ReturnIfAbrupt: an abrupt completion goes back to the caller as it is. -/
def returnIfAbrupt (c : Completion) : Except Abrupt (Spanned Value) :=
  if c.isAbrupt then .error (.completion c)
  else match c.spanned? with
    | some v => .ok v
    | none => .error (.failure (.violation .emptyNormal))

/-- The `!` shorthand: the completion has to be normal and to have a value. -/
def assertNormal (c : Completion) : Except Failure (Spanned Value) :=
  if c.isAbrupt then .error (.violation .unexpectedAbrupt)
  else match c.spanned? with
    | some v => .ok v
    | none => .error (.violation .emptyNormal)

/-- UpdateEmpty: gives a completion without a value this one. -/
def updateEmpty (c : Completion) (value : Value) : Except Failure Completion :=
  match c.value with
  | some _ => .ok c
  | none =>
    if c.type = .returns ∨ c.type = .throws then .error (.violation .emptyReturnOrThrow)
    else .ok { c with value := some value }

theorem returnIfAbrupt_normal (v : Spanned Value) : (normal v).returnIfAbrupt = .ok v := rfl

end Completion
end Redex
