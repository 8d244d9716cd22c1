/-! The characters that count as blank. `isBlank` is the Unicode property
White_Space. A numeric text may be padded with ECMAScript white space and line
terminators, which are the same characters without NEL and with the byte order
mark. -/
namespace Redex

/-- Unicode White_Space. -/
def isBlank (c : Char) : Bool :=
  let n := c.toNat
  (9 ≤ n && n ≤ 13) || n == 0x20 || n == 0x85 || n == 0xA0 || n == 0x1680 ||
    (0x2000 ≤ n && n ≤ 0x200A) || n == 0x2028 || n == 0x2029 || n == 0x202F ||
    n == 0x205F || n == 0x3000

/-- White space and line terminators around a numeric text. -/
def isPadding (c : Char) : Bool :=
  c == '\uFEFF' || (isBlank c && c != '\u0085')

theorem isBlank_of_isWhitespace {c : Char} (h : c.isWhitespace = true) : isBlank c = true := by
  simp only [Char.isWhitespace, Bool.or_eq_true, decide_eq_true_eq] at h
  rcases h with ((h | h) | h) | h <;> subst h <;> decide

/-- Without the characters at either end that satisfy `drop`. -/
def trimBoth (drop : Char → Bool) (text : List Char) : List Char :=
  ((text.dropWhile drop).reverse.dropWhile drop).reverse

end Redex
