import Redex.Evaluation.Step
import Redex.Json.Fields
import Redex.Json.Reader

/-! Reading a step from JSON text: an object with `index`, `type` and the members
of a reduction of that type, each exactly once. Other members are ignored. -/
namespace Redex.Step

/-- The two types of reductions, by name or by number. -/
inductive Tag where
  | replace
  | concatenate
  deriving DecidableEq

def tag? : Json → Option Tag
  | .string "replaceRange" => some .replace
  | .string "stringConcatenate" => some .concatenate
  | .integer 0 => some .replace
  | .integer 1 => some .concatenate
  | _ => none

def reduction? (members : Json.Members) : Option Reduction := do
  match ← Json.once? tag? "type" members with
  | .replace =>
    let range ← Json.once? Json.span? "range" members
    let text ← Json.once? Json.text? "text" members
    return .replace range text
  | .concatenate =>
    let left ← Json.once? Json.span? "left" members
    let right ← Json.once? Json.span? "right" members
    return .concatenate left right

def ofJson? : Json → Option Step
  | .object members => do
    let index ← Json.once? Json.index? "index" members
    return ⟨index, ← reduction? members⟩
  | _ => none

def ofText? (text : String) : Option Step := (Json.ofText? text).bind ofJson?

end Redex.Step
