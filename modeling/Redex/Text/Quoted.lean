/-! Quoted literals in source text. A literal stands in a pair of single or
double quotes; inside it a backslash escapes the character that follows. -/
namespace Redex.Quoted

/-- The quote of a text that begins and ends with the same one. -/
def quote? : List Char → Option Char
  | [] => none
  | c :: rest => if (c = '\'' ∨ c = '"') ∧ rest.getLast? = some c then some c else none

/-- The text of an operand without its quotes. -/
def contents (text : List Char) : List Char :=
  if (quote? text).isSome then text.tail.dropLast else text

/-- The indices, from `index` on, at which `quote` occurs unescaped. -/
def bareFrom (quote : Char) : (escaped : Bool) → (index : Nat) → List Char → List Nat
  | _, _, [] => []
  | true, index, _ :: rest => bareFrom quote false (index + 1) rest
  | false, index, c :: rest =>
    if c = '\\' then bareFrom quote true (index + 1) rest
    else if c = quote then index :: bareFrom quote false (index + 1) rest
    else bareFrom quote false (index + 1) rest

/-- The indices at which `quote` occurs unescaped. -/
def bare (quote : Char) (text : List Char) : List Nat := bareFrom quote false 0 text

def escapeFrom (quote : Char) : (escaped : Bool) → List Char → List Char
  | _, [] => []
  | true, c :: rest => c :: escapeFrom quote false rest
  | false, c :: rest =>
    if c = '\\' then c :: escapeFrom quote true rest
    else if c = quote then '\\' :: c :: escapeFrom quote false rest
    else c :: escapeFrom quote false rest

/-- Puts a backslash before every unescaped `quote`. -/
def escape (quote : Char) (text : List Char) : List Char := escapeFrom quote false text

end Redex.Quoted
