import Redex.Proofs.Text.Lookup

/-! Where the characters of a live text come from. Every character is tagged
with the number of the source character it is, or with nothing when a call put
it in, and calls edit the tagged text as they edit the plain one. A source
offset then stays between the source characters it stood between: right behind
the one before it as long as that one is there, and never behind the one after. -/
namespace Redex

/-- A live character and the number of the source character that it is, if any. -/
structure Glyph where
  char : Char
  origin : Option Nat
  deriving DecidableEq

namespace Glyph

/-- A source that nothing was done to. -/
def ofSource (source : List Char) : List Glyph :=
  source.mapIdx fun number c => ⟨c, some number⟩

def inserted (c : Char) : Glyph := ⟨c, none⟩

/-- The tagged text once a call has returned. -/
def after (glyphs : List Glyph) (c : LiveText.Call) : List Glyph :=
  if c.Fits glyphs.length then
    match c with
    | .insert offset text => glyphs.take offset ++ text.map inserted ++ glyphs.drop offset
    | .remove start stop => glyphs.take start ++ glyphs.drop stop
  else glyphs

def run (source : List Char) (calls : List LiveText.Call) : List Glyph :=
  calls.foldl after (ofSource source)

/-- The numbers of the source characters that are still there, as they stand. -/
def survivors (glyphs : List Glyph) : List Nat := glyphs.filterMap (·.origin)

/-- A glyph of an edited text that was not inserted stood in the text before, and
moved by the length of what was inserted if it stood behind that. -/
theorem getElem?_of_insert {glyphs : List Glyph} {offset k number : Nat} {text : List Char}
    {c : Char} (fits : offset ≤ glyphs.length)
    (found : (glyphs.take offset ++ text.map inserted ++ glyphs.drop offset)[k]? =
      some ⟨c, some number⟩) :
    ∃ j : Nat, glyphs[j]? = some ⟨c, some number⟩ ∧
      (j < offset ∧ k = j ∨ offset ≤ j ∧ k = j + text.length) := by
  have length : (glyphs.take offset).length = offset := List.length_take_of_le fits
  rw [List.append_assoc] at found
  by_cases early : k < offset
  · rw [List.getElem?_append_left (by omega), List.getElem?_take_of_lt early] at found
    exact ⟨k, found, .inl ⟨early, rfl⟩⟩
  · rw [List.getElem?_append_right (by omega), length] at found
    by_cases new : k - offset < (text.map inserted).length
    · rw [List.getElem?_append_left new, List.getElem?_map] at found
      obtain ⟨_, -, tagged⟩ := Option.map_eq_some_iff.mp found
      cases tagged
    · rw [List.getElem?_append_right (by omega), List.getElem?_drop] at found
      rw [List.length_map] at new found
      exact ⟨_, found, .inr (by omega)⟩

/-- A glyph that a removal leaves moved by the removed length if it stood behind that. -/
theorem getElem?_of_remove {glyphs : List Glyph} {start stop k : Nat} {glyph : Glyph}
    (ordered : start ≤ stop) (inside : stop ≤ glyphs.length)
    (found : (glyphs.take start ++ glyphs.drop stop)[k]? = some glyph) :
    ∃ j : Nat, glyphs[j]? = some glyph ∧
      (j < start ∧ k = j ∨ stop ≤ j ∧ j + start = k + stop) := by
  have length : (glyphs.take start).length = start :=
    List.length_take_of_le (Nat.le_trans ordered inside)
  by_cases early : k < start
  · rw [List.getElem?_append_left (by omega), List.getElem?_take_of_lt early] at found
    exact ⟨k, found, .inl ⟨early, rfl⟩⟩
  · rw [List.getElem?_append_right (by omega), length, List.getElem?_drop] at found
    exact ⟨_, found, .inr (by omega)⟩

/-- The tagged text is the live text, and each source character that is there
stands before no place of its own offset and right before the place of the next. -/
structure Tracks (glyphs : List Glyph) (t : LiveText) : Prop where
  chars : glyphs.map (·.char) = t.live
  char_eq : ∀ {k number : Nat} {c : Char}, glyphs[k]? = some ⟨c, some number⟩ →
    t.source[number]? = some c
  place_le : ∀ {k number : Nat} {c : Char}, glyphs[k]? = some ⟨c, some number⟩ →
    t.place number ≤ k
  place_succ : ∀ {k number : Nat} {c : Char}, glyphs[k]? = some ⟨c, some number⟩ →
    t.place (number + 1) = k + 1

namespace Tracks

theorem length_eq {glyphs : List Glyph} {t : LiveText} (tracks : Tracks glyphs t) :
    glyphs.length = t.live.length := by
  rw [← tracks.chars, List.length_map]

theorem ofText (source : List Char) : Tracks (ofSource source) (.ofText source) := by
  have tagged {k number : Nat} {c : Char}
      (found : (ofSource source)[k]? = some ⟨c, some number⟩) :
      source[number]? = some c ∧ number = k := by
    rw [ofSource, List.getElem?_mapIdx] at found
    obtain ⟨d, there, same⟩ := Option.map_eq_some_iff.mp found
    cases same
    exact ⟨there, rfl⟩
  constructor
  · apply List.ext_getElem?
    intro k
    simp only [ofSource, List.getElem?_map, List.getElem?_mapIdx, Option.map_map]
    exact Option.map_id_apply
  · exact fun found => (tagged found).1
  · exact fun found => Nat.le_of_eq (tagged found).2
  · exact fun found => congrArg (· + 1) (tagged found).2

theorem insert {glyphs : List Glyph} {t : LiveText} {before rest : List Char}
    (tracks : Tracks glyphs t) (live : t.live = before ++ rest) (text : List Char) :
    Tracks (glyphs.take before.length ++ text.map inserted ++ glyphs.drop before.length)
      ⟨t.source, before ++ text ++ rest,
        t.log ++ [.insert (Position.origin.past before) text]⟩ := by
  have fits : before.length ≤ glyphs.length := by
    rw [tracks.length_eq, live, List.length_append]
    omega
  constructor
  · simp only [List.map_append, List.map_take, List.map_drop, tracks.chars, live, List.take_left,
      List.drop_left, List.map_map]
    simp [Function.comp_def, inserted]
  · intro k number d found
    obtain ⟨j, there, -⟩ := getElem?_of_insert fits found
    exact tracks.char_eq there
  · intro k number d found
    obtain ⟨j, there, moved⟩ := getElem?_of_insert fits found
    have := tracks.place_le there
    rw [LiveText.place_logged, Edit.shift_insert_at]
    split <;> omega
  · intro k number d found
    obtain ⟨j, there, moved⟩ := getElem?_of_insert fits found
    rw [LiveText.place_logged, Edit.shift_insert_at, tracks.place_succ there]
    split <;> omega

theorem remove {glyphs : List Glyph} {t : LiveText} {before removed rest : List Char}
    (tracks : Tracks glyphs t) (live : t.live = before ++ removed ++ rest) :
    Tracks (glyphs.take before.length ++ glyphs.drop (before.length + removed.length))
      ⟨t.source, before ++ rest,
        t.log ++ [.remove (Position.origin.past before) removed]⟩ := by
  have ordered : before.length ≤ before.length + removed.length := Nat.le_add_right _ _
  have inside : before.length + removed.length ≤ glyphs.length := by
    rw [tracks.length_eq, live, List.length_append, List.length_append]
    omega
  constructor
  · simp only [List.map_append, List.map_take, List.map_drop, tracks.chars, live]
    rw [← List.length_append, List.drop_left, List.append_assoc, List.take_left]
  · intro k number d found
    obtain ⟨j, there, -⟩ := getElem?_of_remove ordered inside found
    exact tracks.char_eq there
  · intro k number d found
    obtain ⟨j, there, moved⟩ := getElem?_of_remove ordered inside found
    have := tracks.place_le there
    rw [LiveText.place_logged, Edit.shift_remove_at]
    grind
  · intro k number d found
    obtain ⟨j, there, moved⟩ := getElem?_of_remove ordered inside found
    rw [LiveText.place_logged, Edit.shift_remove_at, tracks.place_succ there]
    grind

/-- The tags stay right when a call returns, accepted or not. -/
theorem after {glyphs : List Glyph} {t : LiveText} (tracks : Tracks glyphs t)
    (c : LiveText.Call) : Tracks (after glyphs c) (t.after c) := by
  unfold Glyph.after LiveText.after
  rw [tracks.length_eq]
  by_cases fits : c.Fits t.live.length
  · obtain ⟨edited, accepted⟩ := LiveText.accepts_iff.mpr fits
    rw [if_pos fits, accepted]
    obtain ⟨before, text, rest, rfl, live, rfl⟩ | ⟨before, removed, rest, rfl, live, rfl⟩ :=
      LiveText.call_cases accepted
    · exact tracks.insert live text
    · exact tracks.remove live
  · rw [if_neg fits]
    cases refused : t.call c with
    | ok edited => exact absurd (LiveText.accepts_iff.mp ⟨edited, refused⟩) fits
    | error e => exact tracks

theorem run (source : List Char) (calls : List LiveText.Call) :
    Tracks (run source calls) ((LiveText.ofText source).run calls) := by
  suffices ∀ {glyphs t}, Tracks glyphs t → Tracks (calls.foldl Glyph.after glyphs) (t.run calls)
    from this (ofText source)
  intro glyphs t tracks
  induction calls generalizing glyphs t with
  | nil => exact tracks
  | cons c rest ih => exact ih (tracks.after c)

variable {glyphs : List Glyph} {t : LiveText}

/-- An offset separates the source characters before it from those after it. -/
theorem lt_place_iff (tracks : Tracks glyphs t) {k number : Nat} {c : Char}
    (found : glyphs[k]? = some ⟨c, some number⟩) (offset : Nat) :
    k < t.place offset ↔ number < offset := by
  constructor
  · intro early
    apply Nat.lt_of_not_le
    intro late
    have := t.place_mono late
    have := tracks.place_le found
    omega
  · intro early
    have := t.place_mono (Nat.succ_le_of_lt early)
    rw [tracks.place_succ found] at this
    exact this

theorem mem_survivors {number : Nat} (there : number ∈ survivors glyphs) :
    ∃ (k : Nat) (c : Char), glyphs[k]? = some ⟨c, some number⟩ := by
  obtain ⟨⟨c, _⟩, member, rfl⟩ := List.mem_filterMap.mp there
  obtain ⟨k, found⟩ := List.mem_iff_getElem?.mp member
  exact ⟨k, c, found⟩

theorem lt_of_mem_take (tracks : Tracks glyphs t) {offset number : Nat}
    (there : number ∈ survivors (glyphs.take (t.place offset))) : number < offset := by
  obtain ⟨k, c, found⟩ := mem_survivors there
  rw [List.getElem?_take] at found
  split at found
  · exact (tracks.lt_place_iff found offset).mp ‹_›
  · contradiction

theorem le_of_mem_drop (tracks : Tracks glyphs t) {offset number : Nat}
    (there : number ∈ survivors (glyphs.drop (t.place offset))) : offset ≤ number := by
  obtain ⟨k, c, found⟩ := mem_survivors there
  rw [List.getElem?_drop] at found
  have := tracks.lt_place_iff found offset
  omega

theorem survivors_subset {part : List Glyph} (part_of : part ⊆ glyphs) {number : Nat}
    (there : number ∈ survivors part) : number ∈ survivors glyphs := by
  obtain ⟨glyph, member, tag⟩ := List.mem_filterMap.mp there
  exact List.mem_filterMap.mpr ⟨glyph, part_of member, tag⟩

/-- Surviving source characters stand in the order they had. -/
theorem survivors_sorted (tracks : Tracks glyphs t) : (survivors glyphs).Pairwise (· < ·) := by
  rw [survivors, List.pairwise_filterMap, List.pairwise_iff_getElem]
  intro j k hj hk earlier first here second there
  have found {i number : Nat} (hi : i < glyphs.length) (tag : glyphs[i].origin = some number) :
      glyphs[i]? = some ⟨glyphs[i].char, some number⟩ := by
    rw [List.getElem?_eq_getElem hi, ← tag]
  apply Nat.lt_of_not_le
  intro swapped
  have := t.place_mono (Nat.succ_le_succ swapped)
  rw [tracks.place_succ (found hk there), tracks.place_succ (found hj here)] at this
  omega

/-- The source characters between the places of two offsets are the survivors among
those between the offsets. -/
theorem survivors_between (tracks : Tracks glyphs t) {a b : Nat} (ordered : a ≤ b) :
    survivors ((glyphs.take (t.place b)).drop (t.place a)) =
      (survivors glyphs).filter fun number => a ≤ number ∧ number < b := by
  have places := t.place_mono ordered
  have split : glyphs = glyphs.take (t.place a) ++ (glyphs.take (t.place b)).drop (t.place a) ++
      glyphs.drop (t.place b) := by
    have taken := List.take_append_drop (t.place a) (glyphs.take (t.place b))
    rw [List.take_take, Nat.min_eq_left places] at taken
    rw [taken, List.take_append_drop]
  have early : (survivors (glyphs.take (t.place a))).filter
      (fun number => a ≤ number ∧ number < b) = [] := by
    rw [List.filter_eq_nil_iff]
    intro number there
    have := tracks.lt_of_mem_take there
    simp only [decide_eq_true_eq]
    omega
  have late : (survivors (glyphs.drop (t.place b))).filter
      (fun number => a ≤ number ∧ number < b) = [] := by
    rw [List.filter_eq_nil_iff]
    intro number there
    have := tracks.le_of_mem_drop there
    simp only [decide_eq_true_eq]
    omega
  have between : (survivors ((glyphs.take (t.place b)).drop (t.place a))).filter
      (fun number => a ≤ number ∧ number < b) =
        survivors ((glyphs.take (t.place b)).drop (t.place a)) := by
    rw [List.filter_eq_self]
    intro number there
    rw [decide_eq_true_eq]
    constructor
    · rw [List.drop_take] at there
      exact tracks.le_of_mem_drop (survivors_subset (List.take_subset _ _) there)
    · exact tracks.lt_of_mem_take (survivors_subset (List.drop_subset _ _) there)
  calc survivors ((glyphs.take (t.place b)).drop (t.place a))
      = (survivors (glyphs.take (t.place a) ++ (glyphs.take (t.place b)).drop (t.place a) ++
          glyphs.drop (t.place b))).filter (fun number => a ≤ number ∧ number < b) := by
        simp only [survivors, List.filterMap_append, List.filter_append] at early late between ⊢
        rw [early, late, between, List.nil_append, List.append_nil]
    _ = (survivors glyphs).filter fun number => a ≤ number ∧ number < b := by rw [← split]

end Tracks

/-- Two source offsets keep between their places exactly the source characters
between them that are still there, in their order. Places are ordered like their
offsets, and an offset stays right behind the character before it. -/
theorem ranges_keep_survivors (source : List Char) (calls : List LiveText.Call) {a b : Nat}
    (ordered : a ≤ b) (addressable : b < (LiveText.ofText source).offsetCount) :
    let t := (LiveText.ofText source).run calls
    let glyphs := run source calls
    ∃ start stop, t.locate a = .ok start ∧ t.locate b = .ok stop ∧
      start.offset ≤ stop.offset ∧ stop.offset ≤ t.live.length ∧
      glyphs.map (·.char) = t.live ∧
      (survivors glyphs).Pairwise (· < ·) ∧
      survivors ((glyphs.take stop.offset).drop start.offset) =
        (survivors glyphs).filter (fun number => a ≤ number ∧ number < b) ∧
      ∀ (k number : Nat) (c : Char), glyphs[k]? = some ⟨c, some number⟩ →
        source[number]? = some c ∧
        (start.offset ≤ k ∧ k < stop.offset ↔ a ≤ number ∧ number < b) ∧
        (number + 1 = b → k + 1 = stop.offset) := by
  intro t glyphs
  have tracks : Tracks glyphs t := Tracks.run source calls
  have sound : t.Sound := (LiveText.sound_ofText source).run calls
  have same : t.source = source := LiveText.source_run _ calls
  have within : b ≤ t.source.length := same.symm ▸ Nat.lt_succ_iff.mp addressable
  have offset {o : Nat} (within : o ≤ t.source.length) :
      (Position.origin.past (t.live.take (t.place o))).offset = t.place o := by
    rw [Position.offset_origin_past, List.length_take_of_le (sound.inside within)]
  refine ⟨_, _, sound.scan (Nat.le_trans ordered within), sound.scan within, ?_⟩
  rw [offset (Nat.le_trans ordered within), offset within]
  refine ⟨t.place_mono ordered, sound.inside within, tracks.chars, tracks.survivors_sorted,
    tracks.survivors_between ordered, ?_⟩
  intro k number c found
  have first := tracks.lt_place_iff found a
  have second := tracks.lt_place_iff found b
  refine ⟨same ▸ tracks.char_eq found, by omega, ?_⟩
  rintro rfl
  exact (tracks.place_succ found).symm

/-- Of the source characters 1 and 2 the first was removed, and `y` was put in its place. -/
theorem ranges_keep_survivors_around_edits :
    let source := ['a', 'b', 'c', 'd']
    let calls := [.insert 2 ['x'], .remove 1 3, .insert 1 ['y'], .remove 9 9]
    let t := (LiveText.ofText source).run calls
    (1 ≤ 3 ∧ 3 < (LiveText.ofText source).offsetCount) ∧
      ∃ start stop, t.locate 1 = .ok start ∧ t.locate 3 = .ok stop ∧
        survivors (((run source calls).take stop.offset).drop start.offset) = [2] := by
  refine ⟨by decide, ?_⟩
  obtain ⟨start, stop, first, second, -, -, -, -, kept, -⟩ :=
    ranges_keep_survivors ['a', 'b', 'c', 'd']
      [.insert 2 ['x'], .remove 1 3, .insert 1 ['y'], .remove 9 9]
      (by decide : 1 ≤ 3) (by decide)
  exact ⟨start, stop, first, second, kept.trans (by decide)⟩

end Glyph
end Redex
