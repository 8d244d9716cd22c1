import Redex.Json.Value
import Redex.Number.Layout

/-! Compact JSON text: no blanks, and the members of an object in the order of
their keys by code point, a repeated key written once with its last value. -/
namespace Redex.Json

/-- Puts a member into a list sorted by key, in place of one with the same key. -/
def insertMember {α : Type} (key : String) (value : α) : List (String × α) → List (String × α)
  | [] => [(key, value)]
  | (name, other) :: rest =>
    if key < name then (key, value) :: (name, other) :: rest
    else if key = name then (key, value) :: rest
    else (name, other) :: insertMember key value rest

/-- The members that count, sorted by key. -/
def sortMembers {α : Type} (members : List (String × α)) : List (String × α) :=
  members.foldl (fun sorted member => insertMember member.1 member.2 sorted) []

def hexDigits (n : Nat) : List Char :=
  let digits := Nat.toDigits 16 n
  List.replicate (4 - digits.length) '0' ++ digits

def escapeChar (c : Char) : List Char :=
  if c = '"' then ['\\', '"']
  else if c = '\\' then ['\\', '\\']
  else if c = '\x08' then ['\\', 'b']
  else if c = '\x0c' then ['\\', 'f']
  else if c = '\n' then ['\\', 'n']
  else if c = '\r' then ['\\', 'r']
  else if c = '\t' then ['\\', 't']
  else if c.toNat < 0x20 then '\\' :: 'u' :: hexDigits c.toNat
  else [c]

def stringText (s : String) : List Char :=
  '"' :: s.toList.flatMap escapeChar ++ ['"']

def integerText (n : Int) : List Char :=
  (if n < 0 then ['-'] else []) ++ Nat.toDigits 10 n.natAbs

/-- Both zeros are written with a fraction, the negative one with its sign. Only
finite numbers are read from text; the others are written as null. -/
def floatText : Binary64 → List Char
  | .finite negative index =>
    if index.val = 0 then (if negative then ['-'] else []) ++ ['0', '.', '0']
    else Layout.json.finite negative index
  | _ => "null".toList

def bracketed (opening closing : Char) (parts : List (List Char)) : List Char :=
  opening :: ([','].intercalate parts) ++ [closing]

mutual

def compact : Json → List Char
  | .null => "null".toList
  | .boolean value => if value then "true".toList else "false".toList
  | .integer value => integerText value
  | .float value => floatText value
  | .string value => stringText value
  | .array items => bracketed '[' ']' (compactItems items)
  | .object members =>
    bracketed '{' '}'
      ((sortMembers (compactMembers members)).map fun m => stringText m.1 ++ ':' :: m.2)

def compactItems : List Json → List (List Char)
  | [] => []
  | item :: rest => compact item :: compactItems rest

def compactMembers : List (String × Json) → List (String × List Char)
  | [] => []
  | (key, value) :: rest => (key, compact value) :: compactMembers rest

end

def toText (value : Json) : String := String.ofList value.compact

end Redex.Json
