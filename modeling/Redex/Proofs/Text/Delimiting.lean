import Redex.Proofs.Text.Lines

/-! What source ranges delimit in the live text. A range stands for what is between the
lookups of its ends. When one stretch changes, lookups ahead of it stay as they are, those
behind it move along with the text, and a range around the stretch goes on to delimit
what it did, with the new text in the place of the old one. -/
namespace Redex.LiveText

variable {t u : LiveText} {before middle old new rest : List Char} {range : Span}

/-- A source offset is found at this live offset. -/
def Finds (t : LiveText) (offset place : Nat) : Prop :=
  ∃ p, t.locate offset = .ok p ∧ p.offset = place

/-- What is between the live offsets at which the ends of a source range are found. -/
def Delimits (t : LiveText) (range : Span) (text : List Char) : Prop :=
  ∃ start stop, t.Finds range.start start ∧ t.Finds range.stop stop ∧
    t.slice start stop = .ok text

/-- Where lookups lead once `length` characters are in the place of the live stretch from `start`
to `stop`. A lookup that led ahead of the stretch leads to the same position. -/
structure Moves (t u : LiveText) (start stop length : Nat) : Prop where
  ahead : ∀ {offset p}, t.locate offset = .ok p → p.offset ≤ start → u.locate offset = .ok p
  within : ∀ {offset place}, t.Finds offset place → start ≤ place → place ≤ stop →
    ∃ further ≤ length, u.Finds offset (start + further)
  beyond : ∀ {offset place}, t.Finds offset place → stop < place →
    u.Finds offset (place - (stop - start) + length)

/-- Every source range around `range` delimits what it did, with `new` in the place of what `range`
delimited. -/
def Substitutes (t u : LiveText) (range : Span) (new : List Char) : Prop :=
  ∀ outer : Span, outer.start ≤ range.start → range.stop ≤ outer.stop →
    outer.stop ≤ t.source.length →
    ∃ front old back, t.Delimits ⟨outer.start, range.start⟩ front ∧ t.Delimits range old ∧
      t.Delimits ⟨range.stop, outer.stop⟩ back ∧ t.Delimits outer (front ++ old ++ back) ∧
      u.Delimits outer (front ++ new ++ back)

theorem Finds.unique {offset place place' : Nat} (found : t.Finds offset place)
    (found' : t.Finds offset place') : place = place' := by
  obtain ⟨p, located, rfl⟩ := found
  obtain ⟨q, located', rfl⟩ := found'
  rw [Except.ok.inj (located.symm.trans located')]

theorem Delimits.unique {text text' : List Char} (one : t.Delimits range text)
    (other : t.Delimits range text') : text = text' := by
  obtain ⟨_, _, first, last, cut⟩ := one
  obtain ⟨_, _, first', last', cut'⟩ := other
  rw [first.unique first', last.unique last', cut'] at cut
  exact (Except.ok.inj cut).symm

theorem Sound.finds_iff (sound : t.Sound) {offset place : Nat} :
    t.Finds offset place ↔ offset ≤ t.source.length ∧ t.place offset = place := by
  constructor
  · rintro ⟨p, found, rfl⟩
    obtain ⟨within, there, -⟩ := sound.lines found
    exact ⟨within, there.symm⟩
  · rintro ⟨within, rfl⟩
    exact sound.found within

theorem delimits_of_finds (live : t.live = before ++ middle ++ rest)
    (first : t.Finds range.start before.length)
    (last : t.Finds range.stop (before ++ middle).length) : t.Delimits range middle := by
  refine ⟨_, _, first, last, ?_⟩
  rw [List.length_append]
  exact slice_eq live

theorem Changes.moves (change : Changes t u before old new rest) (sound : t.Sound) :
    Moves t u before.length (before ++ old).length new.length where
  ahead {offset p} found early := by
    obtain ⟨within, there, -⟩ := sound.lines found
    rw [there] at early
    have kept := (change.sound sound).scan (change.source ▸ within)
    have same := Except.ok.inj (found.symm.trans (sound.scan within))
    rw [change.live, List.append_assoc, List.take_append_of_le_length early] at same
    rw [kept, change.ahead early, change.rewritten, List.append_assoc,
      List.take_append_of_le_length early, same]
  within {offset place} found late early := by
    obtain ⟨within, rfl⟩ := sound.finds_iff.mp found
    obtain ⟨later, earlier⟩ := change.within late early
    obtain ⟨further, placed⟩ := Nat.exists_eq_add_of_le later
    rw [placed, List.length_append] at earlier
    exact ⟨further, Nat.le_of_add_le_add_left earlier,
      (change.sound sound).finds_iff.mpr ⟨change.source ▸ within, placed⟩⟩
  beyond {offset place} found late := by
    obtain ⟨within, rfl⟩ := sound.finds_iff.mp found
    obtain ⟨further, placed⟩ := Nat.exists_eq_add_of_le (Nat.le_of_lt late)
    have moved := change.beyond placed (by omega)
    refine (change.sound sound).finds_iff.mpr ⟨change.source ▸ within, ?_⟩
    simp only [List.length_append] at placed moved late ⊢
    omega

namespace Replaces

variable (replaces : Replaces t u before old new rest) (sound : t.Sound)

include replaces sound

/-- What was found in the stretch or at its end is found at the end of the new text. -/
theorem finds_end {offset place : Nat} (found : t.Finds offset place)
    (late : before.length < place) (early : place ≤ (before ++ old).length) :
    u.Finds offset (before.length + new.length) := by
  obtain ⟨within, rfl⟩ := sound.finds_iff.mp found
  refine (replaces.sound sound).finds_iff.mpr ⟨replaces.source ▸ within, ?_⟩
  rw [replaces.settled late early, List.length_append]

variable (filled : old ≠ []) (ordered : range.start ≤ range.stop)
  (inside : range.stop ≤ t.source.length) (first : t.place range.start = before.length)
  (last : t.place range.stop = (before ++ old).length)

include filled ordered inside first last

/-- A range goes on to delimit what is put in its place. -/
theorem delimits : u.Delimits range new := by
  have sound' := replaces.sound sound
  apply delimits_of_finds replaces.rewritten
  · exact sound'.finds_iff.mpr ⟨replaces.source ▸ Nat.le_trans ordered inside,
      (replaces.ahead (Nat.le_of_eq first)).trans first⟩
  · exact sound'.finds_iff.mpr ⟨replaces.source ▸ inside, replaces.atEnd (.inl filled) last⟩

theorem substitutes : Substitutes t u range new := by
  intro outer outerFirst outerLast outerInside
  have sound' := replaces.sound sound
  have outerWithin := Nat.le_trans outerFirst (Nat.le_trans ordered inside)
  have ahead : t.place outer.start ≤ before.length := first ▸ t.place_mono outerFirst
  have behind : (before ++ old).length ≤ t.place outer.stop := last ▸ t.place_mono outerLast
  have fits := sound.inside outerInside
  -- What the outer range delimits goes on ahead of the stretch and behind it.
  obtain ⟨earlier, front, rfl, starts⟩ := exists_append_of_le ahead
  obtain ⟨further, stops⟩ := Nat.exists_eq_add_of_le behind
  obtain ⟨back, later, rfl, rfl⟩ : ∃ back later, rest = back ++ later ∧ further = back.length := by
    apply exists_append_of_le
    rw [replaces.live, List.length_append, stops] at fits
    omega
  have found : t.Finds outer.start earlier.length ∧ t.Finds range.start (earlier ++ front).length ∧
      t.Finds range.stop (earlier ++ front ++ old).length ∧
      t.Finds outer.stop (earlier ++ front ++ old ++ back).length := by
    simp only [sound.finds_iff]
    exact ⟨⟨outerWithin, starts⟩, ⟨Nat.le_trans ordered inside, first⟩, ⟨inside, last⟩,
      outerInside, stops.trans List.length_append.symm⟩
  have starts' : u.Finds outer.start earlier.length :=
    sound'.finds_iff.mpr ⟨replaces.source ▸ outerWithin, (replaces.ahead ahead).trans starts⟩
  have stops' : u.Finds outer.stop (earlier ++ front ++ new ++ back).length := by
    have moved := replaces.behind stops (Nat.add_pos_left (List.length_pos_iff.mpr filled) _)
    exact sound'.finds_iff.mpr
      ⟨replaces.source ▸ outerInside, moved.trans List.length_append.symm⟩
  obtain ⟨found₁, found₂, found₃, found₄⟩ := found
  have live := replaces.live
  have rewritten := replaces.rewritten
  simp only [← List.append_assoc] at live rewritten
  have split₁ : t.live = earlier ++ front ++ (old ++ back ++ later) := by
    simpa only [List.append_assoc] using live
  have split₂ : t.live = earlier ++ front ++ old ++ (back ++ later) := by
    simpa only [List.append_assoc] using live
  have whole : t.live = earlier ++ (front ++ old ++ back) ++ later := by
    simpa only [List.append_assoc] using live
  have whole' : u.live = earlier ++ (front ++ new ++ back) ++ later := by
    simpa only [List.append_assoc] using rewritten
  refine ⟨front, old, back, ?_, ?_, ?_, ?_, ?_⟩
  · exact delimits_of_finds split₁ found₁ found₂
  · exact delimits_of_finds split₂ found₂ found₃
  · exact delimits_of_finds live found₃ found₄
  · exact delimits_of_finds whole found₁ (by simpa only [List.append_assoc] using found₄)
  · exact delimits_of_finds whole' starts' (by simpa only [List.append_assoc] using stops')

end Replaces
end Redex.LiveText
