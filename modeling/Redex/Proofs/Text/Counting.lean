import Redex.Proofs.Text.Undoing
import Redex.Text.Edit.Word

/-! Lookups and edits with counters of 64 bits. A word-sized sum or difference can
leave the range of words, and it depends on the arithmetic whether it then wraps
or stops the program. Lookups and edits are given once for any arithmetic, with
every sum and difference taken in the order it is needed. Where an arithmetic is
exact in range, they are the lookups and edits in natural numbers for all short
texts. What carries this is that a position and the edit it is carried across
belong to one text: no difference is then of a number and a greater one, and no
counter exceeds the length of the text. -/
namespace Redex

/-- How counters are added and subtracted. There is no result where the program stops. -/
structure Arithmetic where
  add? : Nat → Nat → Option Nat
  sub? : Nat → Nat → Option Nat

namespace Arithmetic

/-- The number of words. -/
def limit : Nat := 0x10000000000000000

/-- Sums and differences modulo 2^64. -/
def wrapping : Arithmetic where
  add? m n := some (wrapWord (m + n))
  sub? m n := some (wrapWord (m - n))

/-- Sums that are no words and differences below zero stop the program. -/
def checked : Arithmetic where
  add? m n := if m + n < limit then some (m + n) else none
  sub? m n := if n ≤ m then some (m - n) else none

/-- Differences stop the program also where they are taken of zero. -/
def positive : Arithmetic where
  add? := checked.add?
  sub? m n := if 0 < m then checked.sub? m n else none

/-- Sums and differences of words are exact where they are words. -/
structure Exact (a : Arithmetic) : Prop where
  add : ∀ {m n}, m + n < limit → a.add? m n = some (m + n)
  sub : ∀ {m n}, m < limit → n ≤ m → a.sub? m n = some (m - n)

theorem exact_wrapping : wrapping.Exact where
  add {m n} room := congrArg some (wrapWord_of_lt (n := m + n) room)
  sub {m n} word ordered := by
    have cast : (m - n : Int) = (m - n : Nat) := (Int.ofNat_sub ordered).symm
    show some (wrapWord (m - n)) = some (m - n)
    rw [cast, wrapWord_of_lt (Nat.lt_of_le_of_lt (Nat.sub_le m n) word)]

theorem exact_checked : checked.Exact where
  add room := if_pos room
  sub _ ordered := if_pos ordered

end Arithmetic

open Arithmetic (limit)

variable {a : Arithmetic}

namespace Position

/-- `step`, by some arithmetic. -/
def stepBy? (a : Arithmetic) (p : Position) (c : Char) : Option Position := do
  let offset ← a.add? p.offset 1
  if c = '\n' then return ⟨offset, ← a.add? p.line 1, 0⟩
  else return ⟨offset, p.line, ← a.add? p.column 1⟩

/-- `past`, by some arithmetic. -/
def pastBy? (a : Arithmetic) (p : Position) (text : List Char) : Option Position :=
  text.foldlM (stepBy? a) p

/-- `all`, by some arithmetic. -/
def allBy? (a : Arithmetic) (p : Position) : List Char → Option (List Position)
  | [] => some [p]
  | c :: rest => do
    let next ← p.stepBy? a c
    return p :: (← next.allBy? a rest)

/-- All counters are words, and there are no more lines or columns than characters. -/
structure Bounded (p : Position) : Prop where
  offset : p.offset < limit
  line : p.line ≤ p.offset
  column : p.column ≤ p.offset

variable {p : Position} {text : List Char}

theorem Bounded.step (bounded : p.Bounded) {c : Char} (room : p.offset + 1 < limit) :
    (p.step c).Bounded := by
  obtain ⟨-, line, column⟩ := bounded
  constructor
  · rwa [offset_step]
  all_goals
    unfold Position.step
    split <;> simp only <;> omega

/-- Room for a text is room for its first character and then for the others. -/
theorem room_cons {c : Char} (room : p.offset + (c :: text).length < limit) :
    p.offset + 1 < limit ∧ (p.step c).offset + text.length < limit := by
  rw [List.length_cons] at room
  rw [offset_step]
  omega

theorem Bounded.past (bounded : p.Bounded) (room : p.offset + text.length < limit) :
    (p.past text).Bounded := by
  induction text generalizing p with
  | nil => exact bounded
  | cons c rest ih =>
    obtain ⟨here, later⟩ := room_cons room
    exact ih (bounded.step here) later

theorem bounded_origin : origin.Bounded := by
  constructor <;> decide

theorem offset_origin_add (n : Nat) : origin.offset + n = n := Nat.zero_add n

theorem bounded_scan (short : text.length < limit) : (origin.past text).Bounded :=
  bounded_origin.past (by rwa [offset_origin_add])

theorem bounded_take (short : text.length < limit) (offset : Nat) :
    (origin.past (text.take offset)).Bounded :=
  bounded_scan (Nat.lt_of_le_of_lt (List.length_take_le' offset text) short)

theorem stepBy?_eq (exact : a.Exact) (bounded : p.Bounded) (room : p.offset + 1 < limit)
    (c : Char) : p.stepBy? a c = some (p.step c) := by
  obtain ⟨-, line, column⟩ := bounded
  have line : a.add? p.line 1 = some (p.line + 1) := exact.add (by omega)
  have column : a.add? p.column 1 = some (p.column + 1) := exact.add (by omega)
  unfold stepBy? step
  rw [exact.add room]
  split
  · rw [line]
    rfl
  · rw [column]
    rfl

theorem pastBy?_eq (exact : a.Exact) (bounded : p.Bounded)
    (room : p.offset + text.length < limit) : p.pastBy? a text = some (p.past text) := by
  induction text generalizing p with
  | nil => rfl
  | cons c rest ih =>
    obtain ⟨here, later⟩ := room_cons room
    rw [pastBy?, List.foldlM_cons, stepBy?_eq exact bounded here]
    exact ih (bounded.step here) later

theorem allBy?_eq (exact : a.Exact) (bounded : p.Bounded)
    (room : p.offset + text.length < limit) : p.allBy? a text = some (p.all text) := by
  induction text generalizing p with
  | nil => rfl
  | cons c rest ih =>
    obtain ⟨here, later⟩ := room_cons room
    rw [allBy?, stepBy?_eq exact bounded here]
    simp only [Option.bind_eq_bind, Option.bind_some, ih (bounded.step here) later, all]
    rfl

/-- On one line columns only grow. -/
theorem column_le_past (same : (p.past text).line = p.line) : p.column ≤ (p.past text).column := by
  rw [line_past] at same
  have unbroken : '\n' ∉ text := List.count_eq_zero.mp (by omega)
  rw [past_of_unbroken _ unbroken]
  exact Nat.le_add_right _ _

end Position

namespace Edit

/-- Moves the line and column of a position that is `apart` columns behind an insertion across
one inserted character. -/
def moveBy? (a : Arithmetic) (apart : Nat) (moved : Nat × Nat) (c : Char) : Option (Nat × Nat) := do
  if c = '\n' then return (← a.add? moved.1 1, apart)
  else return (moved.1, ← a.add? moved.2 1)

/-- `carry`, by some arithmetic. -/
def carryBy? (a : Arithmetic) : Edit → Position → Option Position
  | .insert start text, p =>
    if p.offset ≤ start.offset then some p
    else do
      let offset ← a.add? p.offset text.length
      if p.line = start.line then
        let apart ← a.sub? p.column start.column
        let (line, column) ← text.foldlM (moveBy? a apart) (p.line, p.column)
        return ⟨offset, line, column⟩
      else return ⟨offset, ← a.add? p.line (text.count '\n'), p.column⟩
  | .remove start text, p =>
    if p.offset ≤ start.offset then some p
    else do
      let stop ← start.pastBy? a text
      if p.offset ≤ stop.offset then return start
      else
        let offset ← a.sub? p.offset (← a.sub? stop.offset start.offset)
        if p.line = stop.line then
          return ⟨offset, start.line, ← a.add? start.column (← a.sub? p.column stop.column)⟩
        else return ⟨offset, ← a.sub? p.line (← a.sub? stop.line start.line), p.column⟩

/-- Each difference that is taken to carry a position across the edit is of a number and one that
is not greater. -/
def Subtracts : Edit → Position → Prop
  | .insert start _, p =>
    start.offset < p.offset → p.line = start.line → start.column ≤ p.column
  | .remove start text, p =>
    let stop := start.past text
    start.offset < p.offset → stop.offset < p.offset →
      (start.offset ≤ stop.offset ∧ stop.offset - start.offset ≤ p.offset) ∧
      (p.line = stop.line → stop.column ≤ p.column) ∧
      (p.line ≠ stop.line → start.line ≤ stop.line ∧ stop.line - start.line ≤ p.line)

theorem moveBy?_eq (exact : a.Exact) (apart : Nat) (q : Position) (text : List Char)
    (lines : q.line + text.length < limit) (columns : q.column + apart + text.length < limit) :
    text.foldlM (moveBy? a apart) (q.line, q.column + apart) =
      some ((q.past text).line, (q.past text).column + apart) := by
  -- The walk is the one over the inserted text itself, with each of its columns moved by `apart`.
  induction text generalizing q with
  | nil => rfl
  | cons c rest ih =>
    rw [List.length_cons] at lines columns
    have line : a.add? q.line 1 = some (q.line + 1) := exact.add (by omega)
    have column : a.add? (q.column + apart) 1 = some (q.column + 1 + apart) := by
      rw [exact.add (by omega), Nat.add_right_comm]
    rw [List.foldlM_cons, Position.past_cons, Position.step]
    by_cases broken : c = '\n'
    · have further := ih ⟨q.offset + 1, q.line + 1, 0⟩ (by simp only; omega) (by simp only; omega)
      simp only [Nat.zero_add] at further
      simp only [moveBy?, broken, if_true, line, Option.bind_eq_bind, Option.bind_some,
        Option.pure_def, further]
    · have further := ih ⟨q.offset + 1, q.line, q.column + 1⟩ (by simp only; omega)
        (by simp only; omega)
      simp only [moveBy?, broken, if_false, column, Option.bind_eq_bind,
        Option.bind_some, Option.pure_def, further]

variable {start p : Position} {text : List Char}

/-- A position carried across an insertion to a position in words is carried exactly. -/
theorem carryBy?_insert_eq (exact : a.Exact) (subtracts : (insert start text).Subtracts p)
    (bounded : p.Bounded) (carried : ((insert start text).carry p).Bounded) :
    (insert start text).carryBy? a p = some ((insert start text).carry p) := by
  obtain ⟨-, lines, columns⟩ := bounded
  simp only [carryBy?, carry, Subtracts, Option.bind_eq_bind, Option.pure_def]
    at subtracts carried ⊢
  by_cases early : p.offset ≤ start.offset
  · simp only [early, if_true]
  · simp only [early, if_false] at carried ⊢
    by_cases same : p.line = start.line
    · simp only [same, if_true] at carried ⊢
      have ordered := subtracts (Nat.lt_of_not_le early) same
      have room : p.offset + text.length < limit := carried.offset
      have apart : a.sub? p.column start.column = some (p.column - start.column) :=
        exact.sub (by omega) ordered
      have moved := moveBy?_eq exact (p.column - start.column) start text (by omega) (by omega)
      rw [Nat.add_sub_cancel' ordered] at moved
      simp only [exact.add room, apart, moved, Option.bind_some]
    · simp only [same, if_false] at carried ⊢
      have room : p.offset + text.length < limit := carried.offset
      have line : a.add? p.line (text.count '\n') = some (p.line + text.count '\n') :=
        exact.add (Nat.lt_of_le_of_lt carried.line room)
      simp only [exact.add room, line, Option.bind_some]

/-- A position of another text can be behind an insertion and yet in a column ahead of it. -/
example : (insert ⟨1, 0, 5⟩ ['x']).carryBy? .checked ⟨3, 0, 2⟩ = none := rfl

/-- The same for a removal, whose end has to be a position in words too. -/
theorem carryBy?_remove_eq (exact : a.Exact) (subtracts : (remove start text).Subtracts p)
    (bounded : p.Bounded) (starts : start.Bounded) (room : start.offset + text.length < limit)
    (carried : ((remove start text).carry p).Bounded) :
    (remove start text).carryBy? a p = some ((remove start text).carry p) := by
  have stops := starts.past room
  simp only [carryBy?, carry, Subtracts, Position.pastBy?_eq exact starts room,
    Option.bind_eq_bind, Option.bind_some, Option.pure_def] at subtracts carried ⊢
  generalize start.past text = stop at *
  by_cases early : p.offset ≤ start.offset
  · simp only [early, if_true]
  · by_cases within : p.offset ≤ stop.offset
    · simp only [early, within, if_false, if_true]
    · simp only [early, within, if_false] at carried ⊢
      obtain ⟨⟨further, offsets⟩, sameLine, otherLine⟩ :=
        subtracts (Nat.lt_of_not_le early) (Nat.lt_of_not_le within)
      have length : a.sub? stop.offset start.offset = some (stop.offset - start.offset) :=
        exact.sub stops.offset further
      have offset : a.sub? p.offset (stop.offset - start.offset) =
          some (p.offset - (stop.offset - start.offset)) := exact.sub bounded.offset offsets
      by_cases same : p.line = stop.line
      · simp only [same, if_true] at carried ⊢
        have apart : a.sub? p.column stop.column = some (p.column - stop.column) :=
          exact.sub (Nat.lt_of_le_of_lt bounded.column bounded.offset) (sameLine same)
        have column : a.add? start.column (p.column - stop.column) =
            some (start.column + (p.column - stop.column)) :=
          exact.add (Nat.lt_of_le_of_lt carried.column carried.offset)
        simp only [length, offset, apart, column, Option.bind_some]
      · simp only [same, if_false] at carried ⊢
        obtain ⟨below, above⟩ := otherLine same
        have height : a.sub? stop.line start.line = some (stop.line - start.line) :=
          exact.sub (Nat.lt_of_le_of_lt stops.line stops.offset) below
        have line : a.sub? p.line (stop.line - start.line) =
            some (p.line - (stop.line - start.line)) :=
          exact.sub (Nat.lt_of_le_of_lt bounded.line bounded.offset) above
        simp only [length, offset, height, line, Option.bind_some]

end Edit

/-! Wrapping arithmetic is what `Edit.carryWord` does with its sums and differences. -/

theorem wrapWord_wrapWord (n : Int) : wrapWord (wrapWord n) = wrapWord n := by
  unfold wrapWord
  omega

theorem wrapWord_add (m n : Int) : wrapWord (wrapWord m + n) = wrapWord (m + n) := by
  unfold wrapWord
  omega

theorem wrapWord_sub (m n : Int) : wrapWord (m - wrapWord n) = wrapWord (m - n) := by
  unfold wrapWord
  omega

namespace Position

theorem wrap_eq {p : Position} (bounded : p.Bounded) : wrap p.offset p.line p.column = p := by
  obtain ⟨words, line, column⟩ := bounded
  rw [wrap, wrapWord_of_lt words, wrapWord_of_lt (Nat.lt_of_le_of_lt line words),
    wrapWord_of_lt (Nat.lt_of_le_of_lt column words)]

theorem stepBy?_wrapping (p : Position) (c : Char) :
    (wrap p.offset p.line p.column).stepBy? .wrapping c =
      some (wrap (p.step c).offset (p.step c).line (p.step c).column) := by
  have next (n : Nat) : Arithmetic.wrapping.add? (wrapWord n) 1 = some (wrapWord (n + 1 : Nat)) :=
    congrArg some (wrapWord_add n 1)
  unfold stepBy? step
  split <;> simp only [wrap, next, Option.bind_eq_bind, Option.bind_some, Option.pure_def]
  rfl

theorem pastBy?_wrapping {p : Position} (bounded : p.Bounded) (text : List Char) :
    p.pastBy? .wrapping text = some (p.pastWord text) := by
  suffices ∀ q : Position, (wrap q.offset q.line q.column).pastBy? .wrapping text =
      some (q.pastWord text) by
    have whole := this p
    rwa [wrap_eq bounded] at whole
  induction text with
  | nil => exact fun _ => rfl
  | cons c rest ih =>
    intro q
    rw [pastBy?, List.foldlM_cons, stepBy?_wrapping]
    exact ih (q.step c)

end Position

namespace Edit

theorem moveBy?_wrapping (apart : Int) (q : Position) (text : List Char) :
    text.foldlM (moveBy? .wrapping (wrapWord apart))
        (wrapWord q.line, wrapWord (q.column + apart)) =
      some (wrapWord (q.past text).line, wrapWord ((q.past text).column + apart)) := by
  induction text generalizing q with
  | nil => rfl
  | cons c rest ih =>
    rw [List.foldlM_cons, Position.past_cons, ← ih]
    have line : Arithmetic.wrapping.add? (wrapWord q.line) 1 = some (wrapWord (q.line + 1 : Nat)) :=
      congrArg some (wrapWord_add q.line 1)
    have column : Arithmetic.wrapping.add? (wrapWord (q.column + apart)) 1 =
        some (wrapWord ((q.column + 1 : Nat) + apart)) := by
      refine congrArg some ((wrapWord_add _ 1).trans (congrArg wrapWord ?_))
      omega
    by_cases broken : c = '\n'
    · simp only [moveBy?, Position.step, broken, if_true, line, Option.bind_eq_bind,
        Option.bind_some, Option.pure_def]
      congr
      omega
    · simp only [moveBy?, Position.step, broken, if_false, column, Option.bind_eq_bind,
        Option.bind_some, Option.pure_def]

/-- In wrapping arithmetic a position is carried in words. -/
theorem carryBy?_wrapping {edit : Edit} {p : Position} (bounded : p.Bounded)
    (starts : edit.start.Bounded) :
    edit.carryBy? .wrapping p = some (edit.carryWord p) := by
  have add (m n : Nat) : Arithmetic.wrapping.add? m n = some (wrapWord (m + n)) := rfl
  have sub (m n : Nat) : Arithmetic.wrapping.sub? m n = some (wrapWord (m - n)) := rfl
  have column : wrapWord p.column = p.column := congrArg Position.column (Position.wrap_eq bounded)
  cases edit with
  | insert start text =>
    have moved := moveBy?_wrapping (p.column - start.column) start text
    have line : wrapWord start.line = start.line :=
      congrArg Position.line (Position.wrap_eq starts)
    have apart : (start.column + (p.column - start.column) : Int) = p.column := by omega
    rw [apart, column, line] at moved
    simp only [carryBy?, carryWord, Position.pastWord, Position.wrap, add, sub, column,
      wrapWord_add, wrapWord_wrapWord, Option.bind_eq_bind, Option.bind_some, Option.pure_def]
    split
    · rfl
    · split
      · rename_i same
        rw [same, moved]
        rfl
      · rfl
  | remove start text =>
    have starts : start.Bounded := starts
    have line : wrapWord start.line = start.line :=
      congrArg Position.line (Position.wrap_eq starts)
    simp only [carryBy?, carryWord, Position.pastBy?_wrapping starts, Position.wrap, add, sub,
      column, line, wrapWord_sub, Option.bind_eq_bind, Option.bind_some, Option.pure_def]
    split
    · rfl
    · split
      · rfl
      · split
        · rw [Int.add_comm, wrapWord_add, Int.add_comm]
        · rfl

end Edit
end Redex
