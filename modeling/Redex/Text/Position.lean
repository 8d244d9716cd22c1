/-! Positions in a text. Offsets, lines and columns count characters from zero,
and a line feed is the only line break. A position does not know its text.
There are three ways to a position: stepping over characters one by one, the
end of a prefix, and the list of all positions of a text. -/
namespace Redex

structure Position where
  offset : Nat
  line : Nat
  column : Nat
  deriving DecidableEq, Repr

namespace Position

def origin : Position := ⟨0, 0, 0⟩

/-- The position after `c`, which stands at `p`. -/
def step (p : Position) (c : Char) : Position :=
  if c = '\n' then ⟨p.offset + 1, p.line + 1, 0⟩ else ⟨p.offset + 1, p.line, p.column + 1⟩

/-- The position after `text`, which begins at `p`. -/
def past (p : Position) (text : List Char) : Position :=
  text.foldl step p

/-- Walks `count` characters on from `p`, if the text has as many. -/
def walk? (p : Position) : (text : List Char) → (count : Nat) → Option Position
  | _, 0 => some p
  | [], _ + 1 => none
  | c :: rest, count + 1 => (p.step c).walk? rest count

/-- The position of an offset into `text`, whose end counts as an offset. -/
def at? (text : List Char) (offset : Nat) : Option Position :=
  origin.walk? text offset

/-- The positions before, between and after the characters of a text that begins at `p`. -/
def all (p : Position) : List Char → List Position
  | [] => [p]
  | c :: rest => p :: (p.step c).all rest

@[simp] theorem past_nil (p : Position) : p.past [] = p := rfl

@[simp] theorem past_cons (p : Position) (c : Char) (rest : List Char) :
    p.past (c :: rest) = (p.step c).past rest := rfl

theorem past_append (p : Position) (s t : List Char) : p.past (s ++ t) = (p.past s).past t :=
  List.foldl_append

@[simp] theorem offset_step (p : Position) (c : Char) : (p.step c).offset = p.offset + 1 := by
  unfold step
  split <;> rfl

theorem offset_past (p : Position) (text : List Char) :
    (p.past text).offset = p.offset + text.length := by
  induction text generalizing p with
  | nil => rfl
  | cons c rest ih => simp only [past_cons, ih, offset_step, List.length_cons]; omega

theorem length_all (p : Position) (text : List Char) : (p.all text).length = text.length + 1 := by
  induction text generalizing p with
  | nil => rfl
  | cons c rest ih => simp only [all, List.length_cons, ih]

end Position
end Redex
