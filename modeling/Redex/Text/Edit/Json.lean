import Redex.Json.Fields
import Redex.Json.Reader
import Redex.Text.Edit

/-! Reading an edit from JSON text: an object with `type`, `start` and the text
that was `inserted` or `removed`, each exactly once, or the same in an array. -/
namespace Redex

def Position.ofJson? : Json → Option Position
  | .object members => do
    let offset ← Json.once? Json.index? "offset" members
    let line ← Json.once? Json.index? "line" members
    let column ← Json.once? Json.index? "column" members
    return ⟨offset, line, column⟩
  | .array [offset, line, column] => do
    return ⟨← offset.index?, ← line.index?, ← column.index?⟩
  | _ => none

namespace Edit

def ofParts? (type : String) (start : Position) (text : String) : Option Edit :=
  if type = "insert" then some (.insert start text.toList)
  else if type = "remove" then some (.remove start text.toList)
  else none

/-- The member that holds the text of an edit of some type. -/
def textKey (type : String) : String := if type = "insert" then "inserted" else "removed"

def ofJson? : Json → Option Edit
  | .object members => do
    let type ← Json.once? Json.text? "type" members
    let start ← Json.once? Position.ofJson? "start" members
    let text ← Json.once? Json.text? (textKey type) members
    ofParts? type start text
  | .array [type, start, text] => do
    ofParts? (← type.text?) (← Position.ofJson? start) (← text.text?)
  | _ => none

def ofText? (text : String) : Option Edit := (Json.ofText? text).bind ofJson?

end Edit
end Redex
