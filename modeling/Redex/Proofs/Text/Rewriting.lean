import Redex.Proofs.Text.Lookup

/-! Rewriting one stretch of a text. Several calls that edit within a stretch
act on the places outside it like one replacement: places up to its start stay,
and places from its end on move along with what follows. Those in between stay
in between. Rewritings of one stretch compose, and a rewriting within a stretch is
one of the whole. Where the stretch may be empty in between, its end is left out
of account. -/
namespace Redex.LiveText

variable {t u v : LiveText} {before old mid new rest : List Char}

/-- By some calls the stretch `old`, between `before` and `rest`, becomes `new`. -/
structure Rewrites (t u : LiveText) (before old new rest : List Char) : Prop where
  live : t.live = before ++ old ++ rest
  rewritten : u.live = before ++ new ++ rest
  ahead : ∀ {offset}, t.place offset ≤ before.length → u.place offset = t.place offset
  within : ∀ {offset}, before.length ≤ t.place offset → t.place offset ≤ (before ++ old).length →
    before.length ≤ u.place offset ∧ u.place offset ≤ (before ++ new).length
  behind : ∀ {offset further}, t.place offset = (before ++ old).length + further →
    0 < old.length + further → u.place offset = (before ++ new).length + further
  byCalls : ∃ calls, u = t.run calls

theorem run_singleton {c : Call} (accepted : t.call c = .ok u) : t.run [c] = u := by
  simp only [run_cons, run_nil, after, accepted]

theorem insert_rewrites (live : t.live = before ++ rest) (text : List Char) :
    ∃ u, t.insert before.length text = .ok u ∧ Rewrites t u before [] text rest := by
  have made : t.call (.insert before.length text) = _ := insert_eq live text
  refine ⟨_, made, by simpa only [List.append_nil] using live, rfl, ?_, ?_, ?_,
    [.insert before.length text], (run_singleton made).symm⟩
  · intro offset early
    simp only [place_logged, Edit.shift_insert_at, early, if_true]
  · intro offset late early
    rw [List.append_nil] at early
    rw [place_logged, Edit.shift_insert_at, if_pos early, List.length_append]
    omega
  · intro offset further placed moved
    simp only [List.append_nil, List.length_nil, List.length_append] at placed moved ⊢
    rw [place_logged, Edit.shift_insert_at, if_neg (by omega)]
    omega

theorem remove_rewrites (live : t.live = before ++ old ++ rest) :
    ∃ u, t.remove before.length (before.length + old.length) = .ok u ∧
      Rewrites t u before old [] rest := by
  have made : t.call (.remove before.length (before.length + old.length)) = _ := remove_eq live
  refine ⟨_, made, live, by rw [List.append_nil], ?_, ?_, ?_,
    [.remove before.length (before.length + old.length)], (run_singleton made).symm⟩
  · intro offset early
    simp only [place_logged, Edit.shift_remove_at, early, if_true]
  · intro offset late early
    rw [List.length_append] at early
    rw [place_logged, Edit.shift_remove_at, List.append_nil]
    split <;> omega
  · intro offset further placed moved
    simp only [List.length_append, List.append_nil] at placed ⊢
    rw [place_logged, Edit.shift_remove_at, if_neg (by omega)]
    split <;> omega

namespace Rewrites

theorem refl (live : t.live = before ++ old ++ rest) : Rewrites t t before old old rest :=
  ⟨live, live, fun _ => rfl, fun late early => ⟨late, early⟩, fun placed _ => placed, [], rfl⟩

theorem trans (first : Rewrites t u before old mid rest) (second : Rewrites u v before mid new rest)
    (solid : mid ≠ []) : Rewrites t v before old new rest := by
  refine ⟨first.live, second.rewritten, ?_, ?_, ?_, ?_⟩
  · intro offset early
    rw [second.ahead (by rw [first.ahead early]; exact early), first.ahead early]
  · intro offset late early
    obtain ⟨late, early⟩ := first.within late early
    exact second.within late early
  · intro offset further placed moved
    have length := List.length_pos_iff.mpr solid
    exact second.behind (first.behind placed moved) (by omega)
  · obtain ⟨calls, rfl⟩ := first.byCalls
    obtain ⟨more, rfl⟩ := second.byCalls
    exact ⟨calls ++ more, (run_append _ _ _).symm⟩

/-- A rewriting within a stretch. An insertion at the very end of the stretch is not one, since
the place of that end is before what was inserted. -/
theorem widen {front back : List Char}
    (inner : Rewrites t u (before ++ front) old new (back ++ rest))
    (solid : front = [] ∨ old ++ back ≠ [] ∨ new = []) :
    Rewrites t u before (front ++ old ++ back) (front ++ new ++ back) rest := by
  refine ⟨?_, ?_, ?_, ?_, ?_, inner.byCalls⟩
  · simpa only [List.append_assoc] using inner.live
  · simpa only [List.append_assoc] using inner.rewritten
  · intro offset early
    apply inner.ahead
    apply Nat.le_trans early
    rw [List.length_append]
    omega
  · intro offset late early
    simp only [List.length_append] at early ⊢
    by_cases inFront : t.place offset ≤ (before ++ front).length
    · rw [inner.ahead inFront]
      rw [List.length_append] at inFront
      omega
    · by_cases inOld : t.place offset ≤ (before ++ front ++ old).length
      · have bounds := inner.within (Nat.le_of_not_le inFront) inOld
        simp only [List.length_append] at bounds
        omega
      · obtain ⟨further, placed⟩ := Nat.exists_eq_add_of_le (Nat.le_of_not_le inOld)
        have moved := inner.behind placed (by omega)
        simp only [List.length_append] at placed moved
        omega
  · intro offset further placed moved
    have shifted : t.place offset = (before ++ front ++ old).length + (back.length + further) := by
      rw [placed]
      simp only [List.length_append]
      omega
    have whole : (before ++ (front ++ new ++ back)).length + further =
        (before ++ front ++ new).length + (back.length + further) := by
      simp only [List.length_append]
      omega
    rw [whole]
    by_cases beyond : 0 < old.length + (back.length + further)
    · exact inner.behind shifted beyond
    · have none : old ++ back = [] := by
        apply List.eq_nil_of_length_eq_zero
        rw [List.length_append]
        omega
      obtain ⟨rfl, rfl⟩ := List.append_eq_nil_iff.mp none
      obtain rfl : further = 0 := by omega
      rcases solid with rfl | some | rfl
      · exact absurd moved (by simp)
      · exact absurd none some
      · rw [List.append_nil] at shifted ⊢
        rw [inner.ahead (Nat.le_of_eq shifted), shifted]

theorem append_back {back : List Char} (inner : Rewrites t u before old new (back ++ rest)) :
    Rewrites t u before (old ++ back) (new ++ back) rest := by
  rw [← List.append_nil before] at inner
  exact inner.widen (.inl rfl)

theorem append_front {front : List Char} (inner : Rewrites t u (before ++ front) old new rest)
    (solid : old ≠ [] ∨ new = []) : Rewrites t u before (front ++ old) (front ++ new) rest := by
  have bounded : Rewrites t u (before ++ front) old new ([] ++ rest) := inner
  have wider := bounded.widen (.inr (by rwa [List.append_nil]))
  rwa [List.append_nil, List.append_nil] at wider

/-- Inserting the new text ahead of the old one and then removing the old one. -/
theorem replace (inserted : Rewrites t u before [] new (old ++ rest))
    (removed : Rewrites u v (before ++ new) old [] rest) : Rewrites t v before old new rest := by
  refine ⟨?_, ?_, ?_, ?_, ?_, ?_⟩
  · simpa only [List.append_nil, List.append_assoc] using inserted.live
  · simpa only [List.append_nil] using removed.rewritten
  · intro offset early
    have kept := inserted.ahead early
    rw [removed.ahead (by rw [kept, List.length_append]; omega), kept]
  · intro offset late early
    by_cases atStart : t.place offset ≤ (before ++ []).length
    · obtain ⟨late, early⟩ := inserted.within late atStart
      rw [removed.ahead early]
      exact ⟨late, early⟩
    · obtain ⟨further, placed⟩ := Nat.exists_eq_add_of_le (Nat.le_of_not_le atStart)
      have moved := inserted.behind placed (by omega)
      have fits : u.place offset ≤ (before ++ new ++ old).length := by
        simp only [List.length_append, List.length_nil] at placed early moved ⊢
        omega
      have bounds := removed.within (by omega) fits
      simp only [List.append_nil, List.length_append] at bounds ⊢
      omega
  · intro offset further placed moved
    have shifted : t.place offset = (before ++ []).length + (old.length + further) := by
      rw [placed, List.length_append, List.append_nil, Nat.add_assoc]
    have beyond := inserted.behind shifted (by rwa [List.length_nil, Nat.zero_add])
    rw [← Nat.add_assoc, ← List.length_append] at beyond
    rw [removed.behind beyond moved, List.append_nil]
  · obtain ⟨calls, rfl⟩ := inserted.byCalls
    obtain ⟨more, rfl⟩ := removed.byCalls
    exact ⟨calls ++ more, (run_append _ _ _).symm⟩

theorem sound (rewriting : Rewrites t u before old new rest) (sound : t.Sound) : u.Sound := by
  obtain ⟨calls, rfl⟩ := rewriting.byCalls
  exact sound.run calls

theorem source (rewriting : Rewrites t u before old new rest) : u.source = t.source := by
  obtain ⟨calls, rfl⟩ := rewriting.byCalls
  exact source_run t calls

/-- The end of a stretch stays its end. -/
theorem atEnd (rewriting : Rewrites t u before old new rest) (solid : old ≠ [] ∨ new = [])
    {offset : Nat} (placed : t.place offset = (before ++ old).length) :
    u.place offset = (before ++ new).length := by
  by_cases some : old = []
  · have none := solid.resolve_left fun h => h some
    subst some none
    rw [List.append_nil] at placed ⊢
    rw [rewriting.ahead (Nat.le_of_eq placed), placed]
  · have there : t.place offset = (before ++ old).length + 0 := placed
    exact rewriting.behind there (List.length_pos_iff.mpr some)

end Rewrites

/-- A rewriting after which all places in the stretch and at its end are at the end of the new
text. -/
structure Replaces (t u : LiveText) (before old new rest : List Char) : Prop
    extends Rewrites t u before old new rest where
  settled : ∀ {offset}, before.length < t.place offset → t.place offset ≤ (before ++ old).length →
    u.place offset = (before ++ new).length

theorem Rewrites.replaces (inserted : Rewrites t u before [] new (old ++ rest))
    (removed : Rewrites u v (before ++ new) old [] rest) : Replaces t v before old new rest where
  toRewrites := inserted.replace removed
  settled {offset} late early := by
    -- The insertion moves such a place into the text that is removed next, or to its end.
    obtain ⟨further, placed⟩ := Nat.exists_eq_add_of_le (Nat.le_of_lt late)
    have moved : u.place offset = (before ++ new).length + further :=
      inserted.behind (by rw [List.append_nil, placed]) (by omega)
    have inside : u.place offset ≤ (before ++ new ++ old).length := by
      simp only [List.length_append] at early moved ⊢
      omega
    have bounds := removed.within (moved ▸ Nat.le_add_right _ _) inside
    rw [List.append_nil] at bounds
    exact Nat.le_antisymm bounds.2 bounds.1

/-- By some calls the stretch `old` becomes `new`, and what lies beyond its end moves along. Its
end itself may come to be anywhere in the new text, so any two changes compose. -/
structure Changes (t u : LiveText) (before old new rest : List Char) : Prop where
  live : t.live = before ++ old ++ rest
  rewritten : u.live = before ++ new ++ rest
  ahead : ∀ {offset}, t.place offset ≤ before.length → u.place offset = t.place offset
  within : ∀ {offset}, before.length ≤ t.place offset → t.place offset ≤ (before ++ old).length →
    before.length ≤ u.place offset ∧ u.place offset ≤ (before ++ new).length
  beyond : ∀ {offset further}, t.place offset = (before ++ old).length + further → 0 < further →
    u.place offset = (before ++ new).length + further
  byCalls : ∃ calls, u = t.run calls

theorem Rewrites.changes (rewriting : Rewrites t u before old new rest) :
    Changes t u before old new rest where
  live := rewriting.live
  rewritten := rewriting.rewritten
  ahead := rewriting.ahead
  within := rewriting.within
  beyond placed further := rewriting.behind placed (Nat.add_pos_right _ further)
  byCalls := rewriting.byCalls

namespace Changes

theorem trans (first : Changes t u before old mid rest) (second : Changes u v before mid new rest) :
    Changes t v before old new rest where
  live := first.live
  rewritten := second.rewritten
  ahead early := by
    have kept := first.ahead early
    rw [second.ahead (by rw [kept]; exact early), kept]
  within late early :=
    have bounds := first.within late early
    second.within bounds.1 bounds.2
  beyond placed further := second.beyond (first.beyond placed further) further
  byCalls := by
    obtain ⟨calls, rfl⟩ := first.byCalls
    obtain ⟨more, rfl⟩ := second.byCalls
    exact ⟨calls ++ more, (run_append _ _ _).symm⟩

theorem append_front {front : List Char} (inner : Changes t u (before ++ front) old new rest) :
    Changes t u before (front ++ old) (front ++ new) rest where
  live := by rw [inner.live, List.append_assoc before]
  rewritten := by rw [inner.rewritten, List.append_assoc before]
  ahead early := inner.ahead (by rw [List.length_append]; omega)
  within {offset} late early := by
    rw [← List.append_assoc] at early ⊢
    by_cases inFront : t.place offset ≤ (before ++ front).length
    · rw [inner.ahead inFront]
      simp only [List.length_append] at inFront ⊢
      omega
    · have bounds := inner.within (Nat.le_of_not_le inFront) early
      simp only [List.length_append] at bounds ⊢
      omega
  beyond placed further := by
    rw [← List.append_assoc] at placed ⊢
    exact inner.beyond placed further
  byCalls := inner.byCalls

theorem sound (change : Changes t u before old new rest) (sound : t.Sound) : u.Sound := by
  obtain ⟨calls, rfl⟩ := change.byCalls
  exact sound.run calls

theorem source (change : Changes t u before old new rest) : u.source = t.source := by
  obtain ⟨calls, rfl⟩ := change.byCalls
  exact source_run t calls

/-- A change that takes the end of the stretch to the end of the new text. -/
theorem rewrites (change : Changes t u before old new rest)
    (atEnd : ∀ {offset}, t.place offset = (before ++ old).length →
      u.place offset = (before ++ new).length) : Rewrites t u before old new rest where
  live := change.live
  rewritten := change.rewritten
  ahead := change.ahead
  within := change.within
  behind {_ further} placed _ := by
    cases further with
    | zero => exact atEnd placed
    | succ further => exact change.beyond placed (Nat.succ_pos further)
  byCalls := change.byCalls

end Changes
end Redex.LiveText
