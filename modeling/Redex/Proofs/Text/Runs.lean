import Redex.Proofs.Text.Transport
import Redex.Text.LiveText

/-! Runs of editing calls. A call that is refused leaves the text as it was, and
one that is accepted puts new characters in the place of old ones at a prefix of
the live text. `place` follows the offset of a lookup through the log. The
invariant `Sound` says that lookups are scans of the live text; each accepted
call keeps it, and so does every run. -/
namespace Redex.LiveText

/-- A call that asks for an edit. -/
inductive Call where
  | insert (offset : Nat) (text : List Char)
  | remove (start stop : Nat)

/-- Whether a text of this length can be edited so. -/
def Call.Fits (length : Nat) : Call → Prop
  | .insert offset _ => offset ≤ length
  | .remove start stop => start ≤ stop ∧ stop ≤ length

instance (length : Nat) : (c : Call) → Decidable (c.Fits length)
  | .insert offset _ => inferInstanceAs (Decidable (offset ≤ length))
  | .remove start stop => inferInstanceAs (Decidable (start ≤ stop ∧ stop ≤ length))

def call (t : LiveText) : Call → Except Error LiveText
  | .insert offset text => t.insert offset text
  | .remove start stop => t.remove start stop

/-- The text once a call has returned. -/
def after (t : LiveText) (c : Call) : LiveText :=
  match t.call c with
  | .ok edited => edited
  | .error _ => t

def run (t : LiveText) (calls : List Call) : LiveText := calls.foldl after t

/-- The live offset of a source offset. -/
def place (t : LiveText) (offset : Nat) : Nat :=
  t.log.foldl (fun offset edit => edit.shift offset) offset

@[simp] theorem run_nil (t : LiveText) : t.run [] = t := rfl

@[simp] theorem run_cons (t : LiveText) (c : Call) (calls : List Call) :
    t.run (c :: calls) = (t.after c).run calls := rfl

theorem run_append (t : LiveText) (first second : List Call) :
    t.run (first ++ second) = (t.run first).run second := List.foldl_append

theorem checkRange_eq_ok {t : LiveText} {start stop : Nat} :
    t.checkRange start stop = .ok () ↔ start ≤ stop ∧ stop ≤ t.live.length := by
  unfold checkRange
  split
  · simp only [reduceCtorEq, false_iff]
    omega
  · split
    · simp only [reduceCtorEq, false_iff]
      omega
    · simp only [true_iff]
      omega

theorem slice_eq {t : LiveText} {before middle rest : List Char}
    (live : t.live = before ++ middle ++ rest) :
    t.slice before.length (before.length + middle.length) = .ok middle := by
  have fits : t.checkRange before.length (before.length + middle.length) = .ok () := by
    rw [checkRange_eq_ok, live]
    simp only [List.length_append]
    omega
  have taken : (t.live.take (before.length + middle.length)).drop before.length = middle := by
    rw [live, ← List.length_append, List.take_left, List.drop_left]
  simp only [slice, fits, taken, bind, Except.bind, pure, Except.pure]

theorem take_eq_append_drop (text : List Char) {start stop : Nat} (ordered : start ≤ stop) :
    text.take stop = text.take start ++ (text.take stop).drop start := by
  have front : (text.take stop).take start = text.take start := by
    rw [List.take_take, Nat.min_eq_left ordered]
  rw [← front, List.take_append_drop]

theorem exists_append_of_le {text : List Char} {offset : Nat} (within : offset ≤ text.length) :
    ∃ before rest, text = before ++ rest ∧ offset = before.length :=
  ⟨text.take offset, text.drop offset, (List.take_append_drop _ _).symm,
    (List.length_take_of_le within).symm⟩

theorem slice_of_le {t : LiveText} {start stop : Nat} (ordered : start ≤ stop)
    (inside : stop ≤ t.live.length) :
    t.slice start stop = .ok ((t.live.take stop).drop start) := by
  have fits : t.checkRange start stop = .ok () := checkRange_eq_ok.mpr ⟨ordered, inside⟩
  rw [slice, fits]
  rfl

/-- What a slice has found. -/
theorem slice_cases {t : LiveText} {start stop : Nat} {middle : List Char}
    (found : t.slice start stop = .ok middle) :
    ∃ before rest, t.live = before ++ middle ++ rest ∧ start = before.length ∧
      stop = (before ++ middle).length := by
  cases checked : t.checkRange start stop with
  | error e =>
    simp only [slice, checked, bind, Except.bind] at found
    contradiction
  | ok =>
    obtain ⟨ordered, inside⟩ := checkRange_eq_ok.mp checked
    simp only [slice, checked, bind, Except.bind, pure, Except.pure, Except.ok.injEq] at found
    have split : t.live.take stop = t.live.take start ++ middle := by
      rw [← found, ← take_eq_append_drop t.live ordered]
    refine ⟨t.live.take start, t.live.drop stop, ?_, ?_, ?_⟩
    · rw [← split, List.take_append_drop]
    · exact (List.length_take_of_le (Nat.le_trans ordered inside)).symm
    · rw [← split, List.length_take_of_le inside]

theorem insert_eq {t : LiveText} {before rest : List Char} (live : t.live = before ++ rest)
    (text : List Char) :
    t.insert before.length text = .ok ⟨t.source, before ++ text ++ rest,
      t.log ++ [.insert (Position.origin.past before) text]⟩ := by
  have fits : before.length ≤ t.live.length := by
    rw [live, List.length_append]
    omega
  simp only [insert, positionAt, fits, if_true, bind, Except.bind, pure, Except.pure]
  simp only [live, List.take_left, List.drop_left]

theorem remove_eq {t : LiveText} {before removed rest : List Char}
    (live : t.live = before ++ removed ++ rest) :
    t.remove before.length (before.length + removed.length) = .ok ⟨t.source, before ++ rest,
      t.log ++ [.remove (Position.origin.past before) removed]⟩ := by
  have fits : before.length ≤ t.live.length := by
    rw [live]
    simp only [List.length_append]
    omega
  have kept : t.live.drop (before.length + removed.length) = rest := by
    rw [live, ← List.length_append, List.drop_left]
  have start : t.live.take before.length = before := by
    rw [live, List.append_assoc, List.take_left]
  simp only [remove, slice_eq live, positionAt, fits, if_true, bind, Except.bind, pure,
    Except.pure, kept, start]

/-- Exactly the calls that fit the live text are accepted. -/
theorem accepts_iff {t : LiveText} {c : Call} :
    (∃ edited, t.call c = .ok edited) ↔ c.Fits t.live.length := by
  cases c with
  | insert offset text =>
    by_cases fits : offset ≤ t.live.length
    · simp [call, insert, positionAt, Call.Fits, fits, bind, Except.bind, pure, Except.pure]
    · simp [call, insert, positionAt, Call.Fits, fits, bind, Except.bind]
  | remove start stop =>
    cases checked : t.checkRange start stop with
    | ok =>
      have fits := checkRange_eq_ok.mp checked
      have inside := Nat.le_trans fits.1 fits.2
      simp [call, remove, slice, positionAt, Call.Fits, checked, fits, inside, bind, Except.bind,
        pure, Except.pure]
    | error e =>
      have outside : ¬ (start ≤ stop ∧ stop ≤ t.live.length) := fun fits =>
        nomatch checked.symm.trans (checkRange_eq_ok.mpr fits)
      simp [call, remove, slice, Call.Fits, checked, outside, bind, Except.bind]

/-- All that an accepted call can do. -/
theorem call_cases {t edited : LiveText} {c : Call} (accepted : t.call c = .ok edited) :
    (∃ before text rest, c = .insert before.length text ∧ t.live = before ++ rest ∧
      edited = ⟨t.source, before ++ text ++ rest,
        t.log ++ [.insert (Position.origin.past before) text]⟩) ∨
    (∃ before removed rest, c = .remove before.length (before.length + removed.length) ∧
      t.live = before ++ removed ++ rest ∧
      edited = ⟨t.source, before ++ rest,
        t.log ++ [.remove (Position.origin.past before) removed]⟩) := by
  have fits := accepts_iff.mp ⟨edited, accepted⟩
  cases c with
  | insert offset text =>
    have split : t.live = t.live.take offset ++ t.live.drop offset :=
      (List.take_append_drop _ _).symm
    have length : (t.live.take offset).length = offset := List.length_take_of_le fits
    have made := insert_eq split text
    rw [length] at made
    exact .inl ⟨_, text, _, by rw [length], split, Except.ok.inj (accepted.symm.trans made)⟩
  | remove start stop =>
    obtain ⟨span, rfl⟩ := Nat.exists_eq_add_of_le fits.1
    have split : t.live = t.live.take start ++ (t.live.drop start).take span ++
        (t.live.drop start).drop span := by
      rw [List.append_assoc, List.take_append_drop, List.take_append_drop]
    have before : (t.live.take start).length = start :=
      List.length_take_of_le (Nat.le_trans fits.1 fits.2)
    have length : ((t.live.drop start).take span).length = span := by
      have := fits.2
      rw [List.length_take, List.length_drop]
      omega
    have made := remove_eq split
    rw [before, length] at made
    exact .inr ⟨_, _, _, by rw [before, length], split,
      Except.ok.inj (accepted.symm.trans made)⟩

/-- A run keeps what every accepted call keeps. -/
theorem run_invariant {P : LiveText → Prop}
    (kept : ∀ {t edited : LiveText} {c : Call}, P t → t.call c = .ok edited → P edited)
    {t : LiveText} (initial : P t) (calls : List Call) : P (t.run calls) := by
  induction calls generalizing t with
  | nil => exact initial
  | cons c rest ih =>
    rw [run_cons]
    apply ih
    unfold after
    split
    · exact kept initial ‹_›
    · exact initial

end Redex.LiveText
