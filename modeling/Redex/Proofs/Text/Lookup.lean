import Redex.Proofs.Text.Runs

/-! Lookups of source offsets. A lookup carries a position of the source across
the log, line and column by arithmetic; in every text that a run leaves behind
this is what a scan of the live text gives at the offset that was reached. -/
namespace Redex.LiveText

theorem locate_eq {t : LiveText} {offset : Nat} (inside : offset ≤ t.source.length) :
    t.locate offset = .ok (t.log.foldl (fun p edit => edit.carry p)
      (Position.origin.past (t.source.take offset))) := by
  simp only [locate, Position.getElem?_all, inside, if_true]

theorem locate_eq_error {t : LiveText} {offset : Nat} (outside : t.source.length < offset) :
    t.locate offset = .error (.sourceOffset offset t.offsetCount) := by
  simp only [locate, Position.getElem?_all, Nat.not_le.mpr outside, if_false]

/-- A place is where a lookup leads to. -/
theorem offset_of_locate {t : LiveText} {offset : Nat} {p : Position}
    (found : t.locate offset = .ok p) : p.offset = t.place offset := by
  have carried (log : List Edit) (p : Position) :
      (log.foldl (fun p edit => edit.carry p) p).offset =
        log.foldl (fun offset edit => edit.shift offset) p.offset := by
    induction log generalizing p with
    | nil => rfl
    | cons edit rest ih => rw [List.foldl_cons, List.foldl_cons, ih, Edit.offset_carry]
  by_cases inside : offset ≤ t.source.length
  · rw [locate_eq inside] at found
    rw [← Except.ok.inj found, carried, Position.offset_origin_past,
      List.length_take_of_le inside, place]
  · rw [locate_eq_error (Nat.lt_of_not_le inside)] at found
    contradiction

/-- A further log entry takes places across its own edit. -/
theorem place_logged (t : LiveText) (live : List Char) (edit : Edit) (offset : Nat) :
    place ⟨t.source, live, t.log ++ [edit]⟩ offset = edit.shift (t.place offset) := by
  simp only [place, List.foldl_append, List.foldl_cons, List.foldl_nil]

theorem locate_logged {t : LiveText} {offset : Nat} {p : Position}
    (found : t.locate offset = .ok p) (live : List Char) (edit : Edit) :
    locate ⟨t.source, live, t.log ++ [edit]⟩ offset = .ok (edit.carry p) := by
  simp only [locate] at found ⊢
  split at found
  · contradiction
  · simp only [List.foldl_append, List.foldl_cons, List.foldl_nil, Except.ok.inj found]

theorem place_mono (t : LiveText) {a b : Nat} (ordered : a ≤ b) : t.place a ≤ t.place b := by
  suffices ∀ log : List Edit, log.foldl (fun offset edit => edit.shift offset) a ≤
      log.foldl (fun offset edit => edit.shift offset) b from this t.log
  intro log
  induction log generalizing a b with
  | nil => exact ordered
  | cons edit rest ih => exact ih (edit.shift_mono ordered)

/-- Every source offset has a place in the live text, and its lookup is the scan up to there. -/
structure Sound (t : LiveText) : Prop where
  inside : ∀ {offset}, offset ≤ t.source.length → t.place offset ≤ t.live.length
  scan : ∀ {offset}, offset ≤ t.source.length →
    t.locate offset = .ok (Position.origin.past (t.live.take (t.place offset)))

theorem Sound.found {t : LiveText} (sound : t.Sound) {offset : Nat}
    (within : offset ≤ t.source.length) :
    ∃ p, t.locate offset = .ok p ∧ p.offset = t.place offset :=
  ⟨_, sound.scan within, offset_of_locate (sound.scan within)⟩

theorem sound_ofText (source : List Char) : (ofText source).Sound where
  inside within := within
  scan within := locate_eq within

theorem Sound.call {t edited : LiveText} {c : Call} (sound : t.Sound)
    (accepted : t.call c = .ok edited) : edited.Sound := by
  obtain ⟨before, text, rest, -, live, rfl⟩ | ⟨before, removed, rest, -, live, rfl⟩ :=
    call_cases accepted
  · have fits {offset} (within : offset ≤ t.source.length) :
        t.place offset ≤ (before ++ rest).length := live ▸ sound.inside within
    constructor
    · intro offset within
      have := fits within
      simp only [place_logged, Edit.shift_insert_at, List.length_append] at this ⊢
      split <;> omega
    · intro offset within
      rw [locate_logged (sound.scan within), place_logged, live,
        Edit.carry_insert_scan _ _ _ (fits within)]
  · have fits {offset} (within : offset ≤ t.source.length) :
        t.place offset ≤ (before ++ removed ++ rest).length := live ▸ sound.inside within
    constructor
    · intro offset within
      have := fits within
      simp only [place_logged, Edit.shift_remove_at, List.length_append] at this ⊢
      split
      · omega
      · split <;> omega
    · intro offset within
      rw [locate_logged (sound.scan within), place_logged, live,
        Edit.carry_remove_scan _ _ _ (fits within)]

theorem Sound.run {t : LiveText} (sound : t.Sound) (calls : List Call) : (t.run calls).Sound :=
  run_invariant Sound.call sound calls

theorem source_run (t : LiveText) (calls : List Call) : (t.run calls).source = t.source := by
  refine run_invariant (P := fun edited => edited.source = t.source) ?_ rfl calls
  intro edited next c same accepted
  obtain ⟨_, _, _, -, -, rfl⟩ | ⟨_, _, _, -, -, rfl⟩ := call_cases accepted <;> exact same

end Redex.LiveText
