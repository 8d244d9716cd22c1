import Redex.Proofs.Session.Action
import Redex.Proofs.Text.Rewriting

/-! Actions that succeed and rewrite one stretch of the text, and change nothing
else in the session. Done one after the other on one stretch they do so
together, which reduces what an operation of many edits does to a list of what
each of them does. -/
namespace Redex.Session

variable {session : Session} {before front old mid new back rest : List Char}

/-- Takes a stretch out if there is one. -/
def trim (start stop : Nat) : Action Unit := if start < stop then remove start stop else pure ()

/-- The action succeeds and changes nothing but the stretch `old` of the text. -/
structure Performs (action : Action Unit) (session : Session) (edited : LiveText)
    (before old new rest : List Char) : Prop where
  ran : outcome action session = (.ok (), { session with text := edited })
  rewrites : session.text.Rewrites edited before old new rest

namespace Performs

theorem pure (live : session.text.live = before ++ old ++ rest) :
    Performs (pure ()) session session.text before old old rest := ⟨rfl, .refl live⟩

theorem insert {offset : Nat} (live : session.text.live = before ++ rest)
    (there : offset = before.length) (text : List Char) :
    ∃ edited, Performs (insert offset text) session edited before [] text rest := by
  subst there
  obtain ⟨edited, made, rewrites⟩ := LiveText.insert_rewrites live text
  exact ⟨edited, by rw [outcome_insert, made], rewrites⟩

theorem remove {start stop : Nat} (live : session.text.live = before ++ old ++ rest)
    (first : start = before.length) (last : stop = (before ++ old).length) :
    ∃ edited, Performs (remove start stop) session edited before old [] rest := by
  subst first last
  obtain ⟨edited, made, rewrites⟩ := LiveText.remove_rewrites live
  exact ⟨edited, by rw [outcome_remove, List.length_append, made], rewrites⟩

/-- An action that is left out when it has nothing to do. -/
theorem ite {condition : Prop} [Decidable condition] {action : Action Unit}
    (done : condition → ∃ edited, Performs action session edited before old new rest)
    (idle : ¬ condition → old = new) (live : session.text.live = before ++ old ++ rest) :
    ∃ edited, Performs (if condition then action else Pure.pure ()) session edited before old new
      rest := by
  split
  · exact done ‹_›
  · have same := idle ‹_›
    subst same
    exact ⟨_, .pure live⟩

theorem trim {start stop : Nat} (live : session.text.live = before ++ old ++ rest)
    (first : start = before.length) (last : stop = (before ++ old).length) :
    ∃ edited, Performs (trim start stop) session edited before old [] rest := by
  refine ite ?_ ?_ live
  · intro _
    exact remove live first last
  · intro none
    rw [first, last, List.length_append] at none
    apply List.eq_nil_of_length_eq_zero
    omega

theorem widen {action : Action Unit} {edited : LiveText}
    (inner : Performs action session edited (before ++ front) old new (back ++ rest))
    (solid : front = [] ∨ old ++ back ≠ [] ∨ new = []) :
    Performs action session edited before (front ++ old ++ back) (front ++ new ++ back) rest :=
  ⟨inner.ran, inner.rewrites.widen solid⟩

theorem append_back {action : Action Unit} {edited : LiveText}
    (inner : Performs action session edited before old new (back ++ rest)) :
    Performs action session edited before (old ++ back) (new ++ back) rest :=
  ⟨inner.ran, inner.rewrites.append_back⟩

theorem append_front {action : Action Unit} {edited : LiveText}
    (inner : Performs action session edited (before ++ front) old new rest)
    (solid : old ≠ [] ∨ new = []) :
    Performs action session edited before (front ++ old) (front ++ new) rest :=
  ⟨inner.ran, inner.rewrites.append_front solid⟩

variable {first second : Action Unit} {midway edited : LiveText}

theorem outcome_seq {before' old' new' rest' : List Char}
    (one : Performs first session midway before old new rest)
    (two : Performs second { session with text := midway } edited before' old' new' rest') :
    outcome (first >>= fun _ => second) session = (.ok (), { session with text := edited }) := by
  rw [outcome_bind_of_ok one.ran, two.ran]

theorem seq (one : Performs first session midway before old mid rest)
    (two : Performs second { session with text := midway } edited before mid new rest)
    (solid : mid ≠ []) : Performs (first >>= fun _ => second) session edited before old new rest :=
  ⟨outcome_seq one two, one.rewrites.trans two.rewrites solid⟩

end Performs

/-- The action succeeds and changes a stretch of the text, whose end may come to be anywhere in
it. -/
structure Achieves (action : Action Unit) (session : Session) (edited : LiveText)
    (before old new rest : List Char) : Prop where
  ran : outcome action session = (.ok (), { session with text := edited })
  changes : session.text.Changes edited before old new rest

theorem Performs.achieves {action : Action Unit} {edited : LiveText}
    (performs : Performs action session edited before old new rest) :
    Achieves action session edited before old new rest :=
  ⟨performs.ran, performs.rewrites.changes⟩

namespace Achieves

variable {action first second : Action Unit} {midway edited : LiveText}

theorem append_front (inner : Achieves action session edited (before ++ front) old new rest) :
    Achieves action session edited before (front ++ old) (front ++ new) rest :=
  ⟨inner.ran, inner.changes.append_front⟩

theorem seq (one : Achieves first session midway before old mid rest)
    (two : Achieves second { session with text := midway } edited before mid new rest) :
    Achieves (first >>= fun _ => second) session edited before old new rest :=
  ⟨by rw [outcome_bind_of_ok one.ran, two.ran], one.changes.trans two.changes⟩

end Achieves

theorem replaceLive_eq (start stop : Nat) (text : List Char) :
    replaceLive start stop text =
      (if text ≠ [] then insert start text else pure ()) >>= fun _ =>
        trim (start + text.length) (stop + text.length) := by
  by_cases filled : text ≠ []
  · simp only [replaceLive, trim, Nat.add_lt_add_iff_right, if_pos filled]
  · simp only [replaceLive, trim, Nat.add_lt_add_iff_right, if_neg filled, pure_bind]

/-- Putting a text in the place of a stretch. -/
theorem replaceLive_replaces {start stop : Nat}
    (live : session.text.live = before ++ old ++ rest) (first : start = before.length)
    (last : stop = (before ++ old).length) (text : List Char) :
    ∃ edited, outcome (replaceLive start stop text) session =
        (.ok (), { session with text := edited }) ∧
      session.text.Replaces edited before old text rest := by
  subst first last
  rw [List.append_assoc] at live
  rw [replaceLive_eq]
  obtain ⟨midway, inserted⟩ : ∃ midway, Performs
      (if text ≠ [] then insert before.length text else pure ()) session midway before [] text
      (old ++ rest) := by
    refine Performs.ite ?_ ?_ (by rw [List.append_nil, live])
    · intro _
      exact Performs.insert live rfl text
    · intro none
      exact (Decidable.not_not.mp none).symm
  have there : midway.live = before ++ text ++ old ++ rest := by
    rw [inserted.rewrites.rewritten, List.append_assoc _ old]
  obtain ⟨edited, removed⟩ : ∃ edited, Performs
      (trim (before.length + text.length) ((before ++ old).length + text.length))
      { session with text := midway } edited (before ++ text) old [] rest := by
    apply Performs.trim there
    · rw [List.length_append]
    · simp only [List.length_append]
      omega
  exact ⟨edited, inserted.outcome_seq removed, inserted.rewrites.replaces removed.rewrites⟩

theorem replaceLive_performs {start stop : Nat}
    (live : session.text.live = before ++ old ++ rest) (first : start = before.length)
    (last : stop = (before ++ old).length) (text : List Char) :
    ∃ edited, Performs (replaceLive start stop text) session edited before old text rest := by
  obtain ⟨edited, ran, replaces⟩ := replaceLive_replaces live first last text
  exact ⟨edited, ran, replaces.toRewrites⟩

theorem outcome_locate_of_eq {offset : Nat} {p : Position}
    (found : session.text.locate offset = .ok p) :
    outcome (locate offset) session = (.ok p, session) := by
  rw [outcome_locate, found]
  rfl

/-- What a lookup comes to in a text whose lookups are scans. -/
theorem outcome_locate_of_sound (sound : session.text.Sound) {offset : Nat}
    (within : offset ≤ session.text.source.length) :
    ∃ p, outcome (locate offset) session = (.ok p, session) ∧
      p.offset = session.text.place offset ∧
      p.line = (session.text.live.take p.offset).count '\n' := by
  obtain ⟨p, found, there⟩ := sound.found within
  refine ⟨p, outcome_locate_of_eq found, there, ?_⟩
  rw [there, Except.ok.inj (found.symm.trans (sound.scan within)), Position.line_past]
  exact Nat.zero_add _

end Redex.Session
