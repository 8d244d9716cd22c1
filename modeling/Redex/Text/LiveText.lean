import Redex.Text.Edit

/-! A text that is edited after its offsets were handed out. The source stays as
it was; the live text starts as a copy of it; the log holds every edit that was
accepted, oldest first. An offset into the source is found in the live text by
taking its position across the log. -/
namespace Redex

structure LiveText where
  source : List Char
  live : List Char
  log : List Edit
  deriving DecidableEq

namespace LiveText

inductive Error where
  /-- An offset into the source past its end. `count` offsets are addressable. -/
  | sourceOffset (offset count : Nat)
  /-- An offset into the live text past its end. -/
  | liveOffset (offset length : Nat)
  /-- A range of live offsets that ends before it starts. -/
  | reversed (start stop : Nat)
  deriving DecidableEq, Repr

def Error.message : Error → String
  | .sourceOffset offset count =>
    s!"original offset {offset} is out of range (original length {count})"
  | .liveOffset offset length => s!"live offset {offset} is out of range (live length {length})"
  | .reversed start stop => s!"invalid range {start}..{stop}"

def ofText (source : List Char) : LiveText := ⟨source, source, []⟩

/-- The number of offsets into the source, its end included. -/
def offsetCount (t : LiveText) : Nat := t.source.length + 1

/-- Where a source offset is now. -/
def locate (t : LiveText) (offset : Nat) : Except Error Position :=
  match (Position.origin.all t.source)[offset]? with
  | none => .error (.sourceOffset offset t.offsetCount)
  | some p => .ok (t.log.foldl (fun p edit => edit.carry p) p)

/-- The position of a live offset. -/
def positionAt (t : LiveText) (offset : Nat) : Except Error Position :=
  if offset ≤ t.live.length then .ok (Position.origin.past (t.live.take offset))
  else .error (.liveOffset offset t.live.length)

def checkRange (t : LiveText) (start stop : Nat) : Except Error Unit :=
  if stop < start then .error (.reversed start stop)
  else if t.live.length < stop then .error (.liveOffset stop t.live.length)
  else .ok ()

/-- The live text between two live offsets. -/
def slice (t : LiveText) (start stop : Nat) : Except Error (List Char) := do
  t.checkRange start stop
  return (t.live.take stop).drop start

def insert (t : LiveText) (offset : Nat) (text : List Char) : Except Error LiveText := do
  let start ← t.positionAt offset
  return { t with
    live := t.live.take offset ++ text ++ t.live.drop offset
    log := t.log ++ [.insert start text] }

/-- Takes out the live text between two live offsets; `slice` is what goes. -/
def remove (t : LiveText) (start stop : Nat) : Except Error LiveText := do
  let removed ← t.slice start stop
  let position ← t.positionAt start
  return { t with
    live := t.live.take start ++ t.live.drop stop
    log := t.log ++ [.remove position removed] }

/-- Makes an edit over again at its start offset: the insertion of its text, or
the removal of as many characters. -/
def perform (t : LiveText) : Edit → Except Error LiveText
  | .insert start text => t.insert start.offset text
  | .remove start text => t.remove start.offset (start.offset + text.length)

/-- The inverse of the last edit, and the text in which it was made as an edit of
its own. -/
def undo? (t : LiveText) : Option (Edit × Except Error LiveText) :=
  t.log.getLast?.map fun edit => (edit.inverse, t.perform edit.inverse)

end LiveText
end Redex
