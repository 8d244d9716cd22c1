import Redex.Number.Numeral

/-! Reading a number from text by way of a reader of floats. That one takes more than numeric
literals: infinities and NaN in any case, with or without a sign. What it takes beyond them is
refused before it is asked, and what it does not know, the radix literals, is read without it. -/
namespace Redex.Numeral

def lowercase (text : List Char) : List Char := text.map Char.toLower

/-- A reader of floats: a signed decimal, or an infinity or NaN in any case. -/
def float? (text : List Char) : Option Binary64 :=
  let (negative, body) := splitSign text
  if lowercase body = "inf".toList ∨ lowercase body = "infinity".toList then
    some (.infinite negative)
  else if lowercase body = "nan".toList then some .nan
  else (decimal? body).map (·.toBinary64 negative)

/-- The words that the reader of floats knows. -/
def words : List (List Char) := ["inf".toList, "infinity".toList, "nan".toList]

/-- The number that a text without padding denotes, NaN if it is no numeric literal. -/
def guarded (text : List Char) : Binary64 :=
  if text = [] then Binary64.zero
  else if text = "Infinity".toList ∨ text = "+Infinity".toList then .infinite false
  else if text = "-Infinity".toList then .infinite true
  else if lowercase (splitSign text).2 ∈ words then .nan
  else match text with
    | '0' :: mark :: digits =>
      match radix? mark with
      | some radix => (radixNumber? radix digits).getD .nan
      | none => (float? text).getD .nan
    | _ => (float? text).getD .nan

end Redex.Numeral
