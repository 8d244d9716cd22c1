import Redex.Json.Reader
import Redex.Syntax.Operator

/-! Reading an operator from JSON: its token, or an object whose one key is the
token and whose value is null. -/
namespace Redex.Operator

def ofJson? : Json → Option Operator
  | .string token => ofToken? token
  | .object [(token, .null)] => ofToken? token
  | _ => none

def ofText? (text : String) : Option Operator := (Json.ofText? text).bind ofJson?

end Redex.Operator
