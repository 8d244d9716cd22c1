import Redex.Json.Number

/-! Reading strict JSON text. Arrays and objects nest at most 127 deep. A value
that is only skimmed, because nothing asks for it, has to be well formed, but its
numbers may be out of range, its escapes may be lone surrogates, and it may nest
as deep as it likes. -/
namespace Redex.Json

/-- A reader takes a value off the front of a text. -/
abbrev Reader (α : Type) := List Char → Option (α × List Char)

inductive Care where
  | full
  | skim
  deriving DecidableEq

def isSpace (c : Char) : Bool := c == ' ' || c == '\t' || c == '\n' || c == '\r'

def skipSpace (text : List Char) : List Char := text.dropWhile isSpace

def hexValue? (c : Char) : Option Nat :=
  if '0' ≤ c ∧ c ≤ '9' then some (c.toNat - '0'.toNat)
  else if 'a' ≤ c ∧ c ≤ 'f' then some (c.toNat - 'a'.toNat + 10)
  else if 'A' ≤ c ∧ c ≤ 'F' then some (c.toNat - 'A'.toNat + 10)
  else none

/-- The UTF-16 unit of four hexadecimal digits. -/
def unit? (a b c d : Char) : Option Nat :=
  [a, b, c, d].foldlM (fun n digit => (hexValue? digit).map (16 * n + ·)) 0

def simpleEscape? (c : Char) : Option Char :=
  if c = '"' ∨ c = '\\' ∨ c = '/' then some c
  else if c = 'b' then some '\x08'
  else if c = 'f' then some '\x0c'
  else if c = 'n' then some '\n'
  else if c = 'r' then some '\r'
  else if c = 't' then some '\t'
  else none

def isLeading (unit : Nat) : Bool := 0xD800 ≤ unit && unit < 0xDC00

def isTrailing (unit : Nat) : Bool := 0xDC00 ≤ unit && unit < 0xE000

/-- The character of a surrogate pair. -/
def pairChar (leading trailing : Nat) : Char :=
  Char.ofNat (0x10000 + (leading - 0xD800) * 0x400 + (trailing - 0xDC00))

/-- What the text between two quotes stands for. -/
def unescape? (care : Care) : List Char → Option (List Char)
  | [] => some []
  | '\\' :: 'u' :: a :: b :: c :: d :: rest => do
    let unit ← unit? a b c d
    if care = .skim then
      (Char.ofNat unit :: ·) <$> unescape? care rest
    else if isLeading unit then
      match rest with
      | '\\' :: 'u' :: e :: f :: g :: h :: rest =>
        let trailing ← unit? e f g h
        if isTrailing trailing then (pairChar unit trailing :: ·) <$> unescape? care rest
        else none
      | _ => none
    else if isTrailing unit then none
    else (Char.ofNat unit :: ·) <$> unescape? care rest
  | ['\\'] => none
  | '\\' :: c :: rest => do
    let meant ← simpleEscape? c
    (meant :: ·) <$> unescape? care rest
  | c :: rest => if c.toNat < 0x20 then none else (c :: ·) <$> unescape? care rest

/-- The text up to the closing quote, and what follows it. -/
def untilQuote? : Reader (List Char)
  | [] => none
  | '"' :: rest => some ([], rest)
  | '\\' :: c :: rest => (untilQuote? rest).map fun (raw, rest) => ('\\' :: c :: raw, rest)
  | c :: rest => (untilQuote? rest).map fun (raw, rest) => (c :: raw, rest)

/-- A string whose opening quote was read. -/
def string? (care : Care) : Reader String := fun text => do
  let (raw, rest) ← untilQuote? text
  return (String.ofList (← unescape? care raw), rest)

/-- What stands in text that begins with a given word, after the word. -/
def word? (word : String) (value : Json) : Reader Json := fun text =>
  if word.toList.isPrefixOf text then some (value, text.drop word.length) else none

def number? (care : Care) : Reader Json := fun text => do
  let (number, rest) ← NumberText.scan? text
  if care = .skim then return (.null, rest)
  return (← number.toJson?, rest)

/-- A value that is not an array or object. -/
def scalar? (care : Care) : Reader Json := fun text =>
  match text with
  | '"' :: rest => (string? care rest).map fun (s, rest) => (.string s, rest)
  | 'n' :: _ => word? "null" .null text
  | 't' :: _ => word? "true" (.boolean true) text
  | 'f' :: _ => word? "false" (.boolean false) text
  | _ => number? care text

/-- Items with commas between them up to a closing bracket, at least one. -/
def itemsUntil? {α : Type} (closing : Char) (item : Reader α) : (fuel : Nat) → Reader (List α)
  | 0, _ => none
  | fuel + 1, text => do
    let (x, rest) ← item text
    match skipSpace rest with
    | [] => none
    | c :: rest =>
      if c = ',' then
        (itemsUntil? closing item fuel rest).map fun (xs, rest) => (x :: xs, rest)
      else if c = closing then some ([x], rest)
      else none

/-- The items of an array or object whose opening bracket was read. Every item
takes a character, so the length of the text bounds their number. -/
def sequence? {α : Type} (closing : Char) (item : Reader α) : Reader (List α) := fun text =>
  match skipSpace text with
  | [] => none
  | c :: rest =>
    if c = closing then some ([], rest) else itemsUntil? closing item text.length text

/-- A key, a colon and the value read by what the key asks for. -/
def member? {α : Type} (care : Care) (value : String → Reader α) : Reader (String × α) :=
  fun text =>
  match skipSpace text with
  | '"' :: rest => do
    let (key, rest) ← string? care rest
    match skipSpace rest with
    | ':' :: rest => (value key rest).map fun (x, rest) => ((key, x), rest)
    | _ => none
  | _ => none

/-- A value that nests at most `depth` deep. -/
def value? (care : Care) : (depth : Nat) → Reader Json
  | 0, text => scalar? care (skipSpace text)
  | depth + 1, text =>
    match skipSpace text with
    | '[' :: rest =>
      (sequence? ']' (value? care depth) rest).map fun (items, rest) => (.array items, rest)
    | '{' :: rest =>
      (sequence? '}' (member? care fun _ => value? care depth) rest).map fun (members, rest) =>
        (.object members, rest)
    | rest => scalar? care rest

def maxDepth : Nat := 127

/-- The value at the front of a text. -/
def read? : Reader Json := value? .full maxDepth

/-- Passes over a value that nothing asks for. -/
def skim? : Reader Json := fun text => value? .skim text.length text

/-- Whether only space is left. -/
def atEnd (rest : List Char) : Bool := rest.all isSpace

/-- The value that a whole document holds. -/
def ofText? (text : String) : Option Json := do
  let (value, rest) ← read? text.toList
  if atEnd rest then some value else none

end Redex.Json
