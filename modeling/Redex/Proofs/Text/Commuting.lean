import Redex.Proofs.Text.Lookup

/-! Calls whose regions stand apart. A call puts its text in the place of a
region of the live text: an insertion takes nothing away, and a removal puts
nothing in. Seen like this the four kinds of pairs are one, and two calls with
live text between their regions can be made in either order. Both orders leave the
same live text, and a lookup is a scan of that, so all there is to compare is
where the places of source offsets go. -/
namespace Redex.LiveText

namespace Call

/-- Where the region of a call begins. -/
def start : Call → Nat
  | .insert offset _ => offset
  | .remove start _ => start

/-- Where the region of a call ends. -/
def stop : Call → Nat
  | .insert offset _ => offset
  | .remove _ stop => stop

/-- What a call puts in the place of its region. -/
def text : Call → List Char
  | .insert _ text => text
  | .remove _ _ => []

/-- The call once `given` characters stand for `taken` ones ahead of its region. -/
def shifted (taken given : Nat) : Call → Call
  | .insert offset text => .insert (offset - taken + given) text
  | .remove start stop => .remove (start - taken + given) (stop - taken + given)

/-- Where a call takes the places of source offsets. -/
def shift (c : Call) (offset : Nat) : Nat :=
  if offset ≤ c.start then offset
  else if offset ≤ c.stop then c.start
  else offset - (c.stop - c.start) + c.text.length

variable {c first second : Call} {length taken given : Nat}

@[simp] theorem start_shifted : (c.shifted taken given).start = c.start - taken + given := by
  cases c <;> rfl

@[simp] theorem stop_shifted : (c.shifted taken given).stop = c.stop - taken + given := by
  cases c <;> rfl

@[simp] theorem text_shifted : (c.shifted taken given).text = c.text := by
  cases c <;> rfl

theorem Fits.bounds (fits : c.Fits length) : c.start ≤ c.stop ∧ c.stop ≤ length := by
  cases c with
  | insert offset text => exact ⟨Nat.le_refl offset, fits⟩
  | remove start stop => exact fits

/-- No place is in both regions, and a place at the end of the first one is ahead of the second. -/
theorem shift_comm (firstOrdered : first.start ≤ first.stop)
    (secondOrdered : second.start ≤ second.stop) (apart : first.stop < second.start)
    (offset : Nat) :
    (second.shifted (first.stop - first.start) first.text.length).shift (first.shift offset) =
      first.shift (second.shift offset) := by
  simp only [shift, start_shifted, stop_shifted, text_shifted]
  grind

end Call

/-- Two regions that stand apart in a text. -/
theorem exists_regions {text : List Char} {first second : Call} (firstFits : first.Fits text.length)
    (secondFits : second.Fits text.length) (apart : first.stop < second.start) :
    ∃ before old gap old' rest, text = before ++ old ++ gap ++ old' ++ rest ∧
      first.start = before.length ∧ first.stop = (before ++ old).length ∧
      second.start = (before ++ old ++ gap).length ∧
      second.stop = (before ++ old ++ gap ++ old').length := by
  obtain ⟨ordered, -⟩ := firstFits.bounds
  obtain ⟨ordered', inside⟩ := secondFits.bounds
  obtain ⟨ahead, rest, rfl, secondStop⟩ := exists_append_of_le inside
  rw [secondStop] at ordered'
  obtain ⟨ahead, old', rfl, secondStart⟩ := exists_append_of_le ordered'
  rw [secondStart] at apart
  obtain ⟨ahead, gap, rfl, firstStop⟩ := exists_append_of_le (Nat.le_of_lt apart)
  rw [firstStop] at ordered
  obtain ⟨before, old, rfl, firstStart⟩ := exists_append_of_le ordered
  exact ⟨before, old, gap, old', rest, rfl, firstStart, firstStop, secondStart, secondStop⟩

/-- The call is accepted and its text comes to stand between `before` and `rest`. -/
structure Makes (t : LiveText) (c : Call) (edited : LiveText) (before rest : List Char) : Prop where
  accepted : t.call c = .ok edited
  source : edited.source = t.source
  live : edited.live = before ++ c.text ++ rest
  place : ∀ offset, edited.place offset = c.shift (t.place offset)
  log : ∃ edit, edited.log = t.log ++ [edit] ∧ edit.start.offset = c.start

variable {t u v : LiveText} {before old rest : List Char}

theorem makes_insert (live : t.live = before ++ rest) (text : List Char) :
    ∃ edited, Makes t (.insert before.length text) edited before rest := by
  refine ⟨_, insert_eq live text, rfl, rfl, ?_, _, rfl, Position.offset_origin_past before⟩
  intro offset
  rw [place_logged, Edit.shift_insert_at]
  simp only [Call.shift, Call.start, Call.stop, Call.text, Nat.sub_self, Nat.sub_zero]
  grind

theorem makes_remove (live : t.live = before ++ old ++ rest) :
    ∃ edited, Makes t (.remove before.length (before ++ old).length) edited before rest := by
  rw [List.length_append]
  refine ⟨_, remove_eq live, rfl, (List.append_nil before).symm ▸ rfl, ?_, _, rfl,
    Position.offset_origin_past before⟩
  intro offset
  rw [place_logged, Edit.shift_remove_at]
  simp only [Call.shift, Call.start, Call.stop, Call.text, List.length_nil,
    Nat.add_sub_cancel_left, Nat.add_zero]

/-- What a call comes to whose region is `old`. -/
theorem makes_call {c : Call} (live : t.live = before ++ old ++ rest)
    (first : c.start = before.length) (last : c.stop = (before ++ old).length) :
    ∃ edited, Makes t c edited before rest := by
  cases c with
  | insert offset text =>
    obtain rfl : offset = before.length := first
    have nothing : old = [] := by
      apply List.eq_nil_of_length_eq_zero
      rw [Call.stop, List.length_append] at last
      omega
    rw [nothing, List.append_nil] at live
    exact makes_insert live text
  | remove start stop =>
    obtain rfl : start = before.length := first
    obtain rfl : stop = (before ++ old).length := last
    exact makes_remove live

/-- Source offsets with the same places in texts that are alike are looked up alike. -/
theorem Sound.locate_eq_of_place (sound : u.Sound) (sound' : v.Sound)
    (source : u.source = v.source) (live : u.live = v.live) {offset : Nat}
    (place : u.place offset = v.place offset) : u.locate offset = v.locate offset := by
  by_cases within : offset ≤ u.source.length
  · rw [sound.scan within, sound'.scan (source ▸ within), live, place]
  · have outside := Nat.lt_of_not_le within
    rw [locate_eq_error outside, locate_eq_error (source ▸ outside), offsetCount, offsetCount,
      source]

/-- Two calls on a text that comes about, of which the region of the first ends before that of the
second begins, can be made in either order: the second and then the first, or the first and then the
second, moved by what the first has changed in length. All four calls are accepted, the live text is
the same after both orders, and so is every lookup, though the logs differ. -/
theorem calls_apart_commute (source : List Char) (calls : List Call) {first second : Call} :
    let t := (ofText source).run calls
    first.Fits t.live.length → second.Fits t.live.length → first.stop < second.start →
      ∃ u v, (t.call second >>= fun edited => edited.call first) = .ok u ∧
        (t.call first >>= fun edited =>
          edited.call (second.shifted (first.stop - first.start) first.text.length)) = .ok v ∧
        u.live = v.live ∧ (∀ offset, u.locate offset = v.locate offset) ∧ u.log ≠ v.log := by
  intro t firstFits secondFits apart
  have sound : t.Sound := (sound_ofText source).run calls
  obtain ⟨before, old, gap, old', rest, live, firstStart, firstStop, secondStart, secondStop⟩ :=
    exists_regions firstFits secondFits apart
  -- Nothing ahead of the first region changes when the second call is made first.
  obtain ⟨one, second₁⟩ := makes_call live secondStart secondStop
  have live₁ : one.live = before ++ old ++ (gap ++ second.text ++ rest) := by
    rw [second₁.live]
    simp only [List.append_assoc]
  obtain ⟨u, first₂⟩ := makes_call live₁ firstStart firstStop
  have live₀ : t.live = before ++ old ++ (gap ++ old' ++ rest) := by
    rw [live]
    simp only [List.append_assoc]
  obtain ⟨two, first₁⟩ := makes_call live₀ firstStart firstStop
  have live₂ : two.live = before ++ first.text ++ gap ++ old' ++ rest := by
    rw [first₁.live]
    simp only [List.append_assoc]
  have lengths : first.stop = before.length + old.length := firstStop.trans List.length_append
  obtain ⟨v, second₂⟩ : ∃ v, Makes two
      (second.shifted (first.stop - first.start) first.text.length) v
      (before ++ first.text ++ gap) rest := by
    apply makes_call live₂
    · rw [Call.start_shifted, secondStart]
      simp only [List.length_append]
      omega
    · rw [Call.stop_shifted, secondStop]
      simp only [List.length_append]
      omega
  have same : u.live = v.live := by
    rw [first₂.live, second₂.live, Call.text_shifted]
    simp only [List.append_assoc]
  refine ⟨u, v, ?_, ?_, same, ?_, ?_⟩
  · rw [second₁.accepted]
    exact first₂.accepted
  · rw [first₁.accepted]
    exact second₂.accepted
  · intro offset
    apply Sound.locate_eq_of_place ((sound.call second₁.accepted).call first₂.accepted)
      ((sound.call first₁.accepted).call second₂.accepted) _ same
    · rw [first₂.place, second₁.place, second₂.place, first₁.place]
      exact (Call.shift_comm firstFits.bounds.1 secondFits.bounds.1 apart _).symm
    · rw [first₂.source, second₁.source, second₂.source, first₁.source]
  · -- After the log so far one order has the entry of the second call, the other that of the first.
    obtain ⟨entry₂, logged₂, there₂⟩ := second₁.log
    obtain ⟨_, logged₁, -⟩ := first₂.log
    obtain ⟨entry₁, logged₁', there₁⟩ := first₁.log
    obtain ⟨_, logged₂', -⟩ := second₂.log
    rw [logged₁, logged₂, logged₂', logged₁', List.append_assoc, List.append_assoc]
    intro equal
    have swapped : entry₂ = entry₁ := List.head_eq_of_cons_eq (List.append_cancel_left equal)
    have ordered := firstFits.bounds.1
    rw [swapped, there₁] at there₂
    omega

/-- A line feed is put in ahead of a removal that joins two lines. -/
theorem calls_apart_commute_across_lines :
    let t := (ofText ['a', 'b', 'c', '\n', 'd', 'e']).run [.insert 1 ['x']]
    let first : Call := .insert 1 ['y', '\n']
    let second : Call := .remove 3 6
    (first.Fits t.live.length ∧ second.Fits t.live.length ∧ first.stop < second.start) ∧
      ∃ u v, (t.call second >>= fun edited => edited.call first) = .ok u ∧
        (t.call first >>= fun edited => edited.call (.remove 5 8)) = .ok v ∧
        u.live = v.live ∧ ∀ offset, u.locate offset = v.locate offset := by
  intro t first second
  have fits : first.Fits t.live.length ∧ second.Fits t.live.length ∧ first.stop < second.start := by
    decide
  obtain ⟨u, v, one, other, same, lookups, -⟩ := calls_apart_commute
    ['a', 'b', 'c', '\n', 'd', 'e'] [.insert 1 ['x']] fits.1 fits.2.1 fits.2.2
  exact ⟨fits, u, v, one, other, same, lookups⟩

/-- Regions that touch are not apart: here the end of the source is ahead of `x` or behind it. -/
example :
    ((ofText ['a', 'b']).run [.remove 1 2, .insert 1 ['x']]).locate 2 = .ok ⟨1, 0, 1⟩ ∧
      ((ofText ['a', 'b']).run [.insert 1 ['x'], .remove 2 3]).locate 2 = .ok ⟨2, 0, 2⟩ :=
  ⟨rfl, rfl⟩

end Redex.LiveText
