import Redex.Proofs.Text.Counting

/-! Lookups and edits of a live text by some arithmetic. A log is a path from the
source to the live text, and along a path every carried position is a scan of the
text that the path has come to. As long as these texts are short, all that is
counted are words. -/
namespace Redex

open Arithmetic (limit)

variable {a : Arithmetic}

namespace Edit

/-- The text that these edits are made on, and every text they come to, has fewer characters than
there are words. -/
def Short : List Edit → List Char → Prop
  | [], text => text.length < limit
  | edit :: rest, text => text.length < limit ∧ ∀ next ∈ edit.splice? text, Short rest next

instance : (edits : List Edit) → (text : List Char) → Decidable (Short edits text)
  | [], text => inferInstanceAs (Decidable (text.length < limit))
  | edit :: rest, text =>
    have (next : List Char) : Decidable (Short rest next) := instDecidableShort rest next
    inferInstanceAs (Decidable (text.length < limit ∧ ∀ next ∈ edit.splice? text, Short rest next))

variable {edit : Edit} {edits one two : List Edit} {first second last : List Char} {offset : Nat}

theorem Short.here (short : Short edits first) : first.length < limit := by
  cases edits with
  | nil => exact short
  | cons edit rest => exact short.1

theorem Short.next (short : Short (edit :: edits) first) (leads : edit.Leads first second) :
    Short edits second := short.2 second leads.splice?

theorem Short.reached (short : Short edits first) (path : Path edits first last) :
    last.length < limit := by
  induction path with
  | nil => exact short.here
  | cons leads _ ih => exact ih (short.next leads)

theorem Short.of_append (short : Short (one ++ two) first) : Short one first := by
  induction one generalizing first with
  | nil => exact short.here
  | cons edit rest ih => exact ⟨short.1, fun next made => ih (short.2 next made)⟩

theorem Short.later (short : Short (one ++ two) first) (path : Path one first second) :
    Short two second := by
  induction path with
  | nil => exact short
  | cons leads _ ih => exact ih (short.next leads)

/-- A path that is made of two. -/
theorem Path.split (path : Path (one ++ two) first last) :
    ∃ mid, Path one first mid ∧ Path two mid last := by
  induction one generalizing first with
  | nil => exact ⟨first, .nil first, path⟩
  | cons edit rest ih =>
    obtain _ | ⟨leads, path⟩ := path
    obtain ⟨mid, front, back⟩ := ih path
    exact ⟨mid, .cons leads front, back⟩

/-- Across an edit a scan of one text becomes one of the other. -/
theorem Leads.carry_scan (leads : edit.Leads first second) (inside : offset ≤ first.length) :
    ∃ further, further ≤ second.length ∧ edit.carry (Position.origin.past (first.take offset)) =
      Position.origin.past (second.take further) := by
  cases leads with
  | insert before text rest =>
    refine ⟨_, ?_, carry_insert_scan before text rest inside⟩
    simp only [shift_insert_at, List.length_append] at inside ⊢
    split <;> omega
  | remove before text rest =>
    refine ⟨_, ?_, carry_remove_scan before text rest inside⟩
    simp only [shift_remove_at, List.length_append] at inside ⊢
    split
    · omega
    · split <;> omega

theorem Path.carry_scan (path : Path edits first last) (inside : offset ≤ first.length) :
    ∃ further, further ≤ last.length ∧
      edits.foldl (fun p edit => edit.carry p) (Position.origin.past (first.take offset)) =
        Position.origin.past (last.take further) := by
  induction path generalizing offset with
  | nil text => exact ⟨offset, inside, rfl⟩
  | cons leads _ ih =>
    obtain ⟨further, inside, carried⟩ := leads.carry_scan inside
    rw [List.foldl_cons, carried]
    exact ih inside

/-- What a scan has passed once it is beyond a prefix. -/
theorem scan_beyond {ahead rest : List Char}
    (beyond : ahead.length < (Position.origin.past ((ahead ++ rest).take offset)).offset) :
    ∃ walked, Position.origin.past ((ahead ++ rest).take offset) =
      (Position.origin.past ahead).past walked := by
  rw [Position.offset_origin_past, List.length_take] at beyond
  obtain ⟨further, rfl⟩ := Nat.exists_eq_add_of_le (show ahead.length ≤ offset by omega)
  rw [List.take_length_add_append, Position.past_append]
  exact ⟨_, rfl⟩

/-- A scan of the text that an edit is made on is carried without going below zero. -/
theorem Leads.subtracts (leads : edit.Leads first second) (offset : Nat) :
    edit.Subtracts (Position.origin.past (first.take offset)) := by
  cases leads with
  | insert before text rest =>
    intro late same
    rw [Position.offset_origin_past before] at late
    obtain ⟨walked, scan⟩ := scan_beyond late
    rw [scan] at same ⊢
    exact Position.column_le_past same
  | remove before text rest =>
    intro late beyond
    rw [← Position.past_append] at beyond ⊢
    rw [Position.offset_origin_past (before ++ text)] at beyond
    obtain ⟨walked, scan⟩ := scan_beyond beyond
    rw [scan]
    have height : (Position.origin.past (before ++ text)).line =
        (Position.origin.past before).line + text.count '\n' := by
      rw [Position.past_append, Position.line_past]
    simp only [Position.offset_past _ walked, Position.line_past _ walked,
      Position.offset_origin_past, List.length_append]
    refine ⟨⟨by omega, by omega⟩, ?_, fun _ => ⟨by omega, by omega⟩⟩
    intro same
    exact Position.column_le_past ((Position.line_past _ _).trans same)

theorem Leads.start_bounded (leads : edit.Leads first second) (short : first.length < limit) :
    edit.start.Bounded := by
  cases leads with
  | insert before text rest =>
    have within : before.length ≤ (before ++ rest).length := by simp
    exact Position.bounded_scan (Nat.lt_of_le_of_lt within short)
  | remove before text rest =>
    have within : before.length ≤ (before ++ text ++ rest).length := by simp
    exact Position.bounded_scan (Nat.lt_of_le_of_lt within short)

/-- Between short texts a scan is carried exactly. -/
theorem Leads.carryBy?_eq (exact : a.Exact) (leads : edit.Leads first second)
    (short : first.length < limit) (short' : second.length < limit)
    (inside : offset ≤ first.length) :
    edit.carryBy? a (Position.origin.past (first.take offset)) =
      some (edit.carry (Position.origin.past (first.take offset))) := by
  have subtracts := leads.subtracts offset
  have bounded := Position.bounded_take short offset
  have starts := leads.start_bounded short
  have carried : (edit.carry (Position.origin.past (first.take offset))).Bounded := by
    obtain ⟨further, -, carried⟩ := leads.carry_scan inside
    rw [carried]
    exact Position.bounded_take short' further
  cases leads with
  | insert before text rest => exact carryBy?_insert_eq exact subtracts bounded carried
  | remove before text rest =>
    refine carryBy?_remove_eq exact subtracts bounded starts ?_ carried
    simp only [List.length_append] at short
    rw [Position.offset_origin_past]
    omega

/-- Between short texts no counter of a scan wraps on the way. -/
theorem Leads.carryWord_eq (leads : edit.Leads first second) (short : first.length < limit)
    (short' : second.length < limit) (inside : offset ≤ first.length) :
    edit.carryWord (Position.origin.past (first.take offset)) =
      edit.carry (Position.origin.past (first.take offset)) := by
  have wrapped := carryBy?_wrapping (Position.bounded_take short offset)
    (leads.start_bounded short)
  exact Option.some.inj (wrapped.symm.trans
    (leads.carryBy?_eq Arithmetic.exact_wrapping short short' inside))

/-- Along a path of short texts a scan is carried exactly. -/
theorem Path.carryBy?_eq (exact : a.Exact) (path : Path edits first last)
    (short : Short edits first) (inside : offset ≤ first.length) :
    edits.foldlM (fun p edit => edit.carryBy? a p) (Position.origin.past (first.take offset)) =
      some (edits.foldl (fun p edit => edit.carry p)
        (Position.origin.past (first.take offset))) := by
  induction path generalizing offset with
  | nil => rfl
  | cons leads path ih =>
    have later := short.next leads
    rw [List.foldlM_cons, List.foldl_cons, leads.carryBy?_eq exact short.here later.here inside]
    obtain ⟨further, within, carried⟩ := leads.carry_scan inside
    rw [carried]
    exact ih later within

end Edit

namespace LiveText

variable {t : LiveText} {offset start stop : Nat}

/-- `locate`, by some arithmetic. -/
def locateBy? (a : Arithmetic) (t : LiveText) (offset : Nat) : Option (Except Error Position) := do
  let positions ← Position.origin.allBy? a t.source
  match positions[offset]? with
  | none => return .error (.sourceOffset offset t.offsetCount)
  | some p => return .ok (← t.log.foldlM (fun p edit => edit.carryBy? a p) p)

/-- `positionAt`, by some arithmetic. -/
def positionAtBy? (a : Arithmetic) (t : LiveText) (offset : Nat) :
    Option (Except Error Position) :=
  if offset ≤ t.live.length then (Position.origin.pastBy? a (t.live.take offset)).map .ok
  else some (.error (.liveOffset offset t.live.length))

/-- `insert`, by some arithmetic. -/
def insertBy? (a : Arithmetic) (t : LiveText) (offset : Nat) (text : List Char) :
    Option (Except Error LiveText) := do
  let found ← t.positionAtBy? a offset
  return do
    let start ← found
    return { t with
      live := t.live.take offset ++ text ++ t.live.drop offset
      log := t.log ++ [.insert start text] }

/-- `remove`, by some arithmetic. -/
def removeBy? (a : Arithmetic) (t : LiveText) (start stop : Nat) :
    Option (Except Error LiveText) :=
  match t.slice start stop with
  | .error e => some (.error e)
  | .ok removed => do
    let found ← t.positionAtBy? a start
    return do
      let position ← found
      return { t with
        live := t.live.take start ++ t.live.drop stop
        log := t.log ++ [.remove position removed] }

/-- `call`, by some arithmetic. -/
def callBy? (a : Arithmetic) (t : LiveText) : Call → Option (Except Error LiveText)
  | .insert offset text => t.insertBy? a offset text
  | .remove start stop => t.removeBy? a start stop

/-- The log is a path from the source to the live text. -/
def Traced (t : LiveText) : Prop := Edit.Path t.log t.source t.live

/-- Each of the texts that the log leads through is short. -/
def Short (t : LiveText) : Prop := Edit.Short t.log t.source

instance (t : LiveText) : Decidable t.Short := inferInstanceAs (Decidable (Edit.Short _ _))

theorem traced_ofText (source : List Char) : (ofText source).Traced := .nil source

theorem Traced.run (traced : t.Traced) (calls : List Call) : (t.run calls).Traced := by
  obtain ⟨log, path⟩ := run_leads t calls
  rw [Traced, log, source_run]
  exact traced.append path

theorem Traced.live_short (traced : t.Traced) (short : t.Short) : t.live.length < limit :=
  Edit.Short.reached short traced

/-- The log only grows. -/
theorem Short.of_run {calls : List Call} (short : (t.run calls).Short) : t.Short := by
  rw [Short, (run_leads t calls).1, source_run] at short
  exact Edit.Short.of_append short

theorem locateBy?_eq (exact : a.Exact) (traced : t.Traced) (short : t.Short) (offset : Nat) :
    t.locateBy? a offset = some (t.locate offset) := by
  have positions : Position.origin.allBy? a t.source = some (Position.origin.all t.source) := by
    apply Position.allBy?_eq exact Position.bounded_origin
    rw [Position.offset_origin_add]
    exact Edit.Short.here short
  rw [locateBy?, positions, Option.bind_eq_bind, Option.bind_some]
  by_cases inside : offset ≤ t.source.length
  · simp only [locate_eq inside, Position.getElem?_all, inside, if_true]
    rw [Edit.Path.carryBy?_eq exact traced short inside]
    rfl
  · simp only [locate_eq_error (Nat.lt_of_not_le inside), Position.getElem?_all, inside, if_false]
    rfl

/-- A step of a lookup takes a scan of the text that the edit was made on across it. -/
theorem Traced.step (traced : t.Traced) {before after : List Edit} {edit : Edit}
    (log : t.log = before ++ edit :: after) (inside : offset ≤ t.source.length) :
    let p := before.foldl (fun p edit => edit.carry p)
      (Position.origin.past (t.source.take offset))
    edit.Subtracts p ∧ (t.Short → edit.carryWord p = edit.carry p) := by
  intro p
  rw [Traced, log] at traced
  obtain ⟨first, front, back⟩ := traced.split
  obtain ⟨further, within, scan⟩ := front.carry_scan inside
  obtain _ | ⟨leads, -⟩ := back
  rw [show p = _ from scan]
  refine ⟨leads.subtracts further, ?_⟩
  intro short
  rw [Short, log] at short
  have here := short.later front
  exact leads.carryWord_eq here.here (here.next leads).here within

theorem positionAtBy?_eq (exact : a.Exact) (short : t.live.length < limit) (offset : Nat) :
    t.positionAtBy? a offset = some (t.positionAt offset) := by
  have scan : Position.origin.pastBy? a (t.live.take offset) =
      some (Position.origin.past (t.live.take offset)) := by
    apply Position.pastBy?_eq exact Position.bounded_origin
    rw [Position.offset_origin_add]
    exact Nat.lt_of_le_of_lt (List.length_take_le' offset t.live) short
  rw [positionAtBy?, positionAt, scan]
  split <;> rfl

theorem callBy?_eq (exact : a.Exact) (traced : t.Traced) (short : t.Short) (c : Call) :
    t.callBy? a c = some (t.call c) := by
  have found := positionAtBy?_eq exact (traced.live_short short)
  cases c with
  | insert offset text =>
    rw [callBy?, insertBy?, found]
    rfl
  | remove start stop =>
    simp only [callBy?, removeBy?, call, remove]
    cases sliced : t.slice start stop with
    | error e => rfl
    | ok removed =>
      simp only [found]
      rfl

end LiveText
end Redex
