import Redex.Json.Fields
import Redex.Json.Reader

/-! The options of a session and how they are read from JSON text. Every option
may be left out; those that are unknown are passed over. -/
namespace Redex

structure Options where
  /-- Whether a step that crosses a line break is refused. -/
  singleLine : Bool := true
  /-- The quote of a concatenation of two operands without quotes. -/
  defaultQuote : Char := '\''
  deriving DecidableEq, Repr

namespace Options

def flag? : Json → Option Bool
  | .boolean b => some b
  | _ => none

/-- A string of one character. -/
def char? : Json → Option Char
  | .string s => match s.toList with
    | [c] => some c
    | _ => none
  | _ => none

/-- Reads only what the options hold, and skims the rest. -/
def readMember? (key : String) : Json.Reader Json :=
  if key = "singleLine" ∨ key = "defaultQuote" then Json.read? else Json.skim?

def ofMembers? (members : Json.Members) : Option Options := do
  let singleLine ← member? flag? "singleLine" true
  let defaultQuote ← member? char? "defaultQuote" '\''
  return { singleLine, defaultQuote }
where
  member? {α : Type} (read : Json → Option α) (key : String) (default : α) : Option α :=
    if Json.repeats key members then none
    else match Json.last? key members with
      | none => some default
      | some value => read value

/-- The options in order, the last ones left out. -/
def ofItems? : List Json → Option Options
  | [] => some {}
  | [singleLine] => do return { singleLine := ← flag? singleLine }
  | [singleLine, defaultQuote] => do
    return { singleLine := ← flag? singleLine, defaultQuote := ← char? defaultQuote }
  | _ => none

def read? : Json.Reader Options := fun text =>
  match Json.skipSpace text with
  | '{' :: rest => do
    let (members, rest) ← Json.sequence? '}' (Json.member? .full readMember?) rest
    return (← ofMembers? members, rest)
  | '[' :: rest => do
    let (items, rest) ← Json.sequence? ']' Json.read? rest
    return (← ofItems? items, rest)
  | _ => none

def ofText? (text : String) : Option Options := do
  let (options, rest) ← read? text.toList
  if Json.atEnd rest then some options else none

end Options
end Redex
