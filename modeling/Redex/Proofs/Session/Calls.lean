import Redex.Proofs.Session.Action
import Redex.Proofs.Text.Lookup
import Redex.Session.Consumer

/-! Sessions edit their text by calls alone, whatever they are asked for and
whether they accept it. What holds of every run of calls, such as the agreement
of lookups with scans of the live text, therefore holds in every session. -/
namespace Redex.Session

variable {α β : Type}

/-- An action whose effect on the text is that of some calls, and which leaves the options alone. -/
def EditsByCalls (action : Action α) : Prop :=
  ∀ session, (∃ calls, (outcome action session).2.text = session.text.run calls) ∧
    (outcome action session).2.options = session.options

namespace EditsByCalls

theorem of_text_eq {action : Action α} (text : ∀ s, (outcome action s).2.text = s.text)
    (options : ∀ s, (outcome action s).2.options = s.options) : EditsByCalls action :=
  fun session => ⟨⟨[], text session⟩, options session⟩

theorem pure (a : α) : EditsByCalls (pure a) := of_text_eq (fun _ => rfl) (fun _ => rfl)

theorem bind {action : Action α} {next : α → Action β} (first : EditsByCalls action)
    (second : ∀ a, EditsByCalls (next a)) : EditsByCalls (action >>= next) := by
  intro session
  obtain ⟨⟨calls, text⟩, options⟩ := first session
  rw [outcome_bind]
  cases ran : outcome action session with
  | mk result left =>
    rw [ran] at text options
    cases result with
    | error refusal => exact ⟨⟨calls, text⟩, options⟩
    | ok a =>
      obtain ⟨⟨more, text'⟩, options'⟩ := second a left
      refine ⟨⟨calls ++ more, ?_⟩, options'.trans options⟩
      rw [LiveText.run_append, ← text]
      exact text'

theorem ite (condition : Prop) [Decidable condition] {yes no : Action α}
    (first : EditsByCalls yes) (second : EditsByCalls no) :
    EditsByCalls (if condition then yes else no) := by
  split
  · exact first
  · exact second

theorem get : EditsByCalls get := of_text_eq (fun _ => rfl) (fun _ => rfl)

theorem locate (offset : Nat) : EditsByCalls (locate offset) :=
  of_text_eq (fun _ => rfl) (fun _ => rfl)

theorem slice (start stop : Nat) : EditsByCalls (slice start stop) :=
  of_text_eq (fun _ => rfl) (fun _ => rfl)

theorem addFrame : EditsByCalls addFrame := of_text_eq (fun _ => rfl) (fun _ => rfl)

theorem checkLines (start stop : Position) : EditsByCalls (checkLines start stop) :=
  of_text_eq (fun _ => by rw [outcome_checkLines]) (fun _ => by rw [outcome_checkLines])

theorem insert (offset : Nat) (text : List Char) : EditsByCalls (insert offset text) := by
  intro session
  rw [outcome_insert]
  cases made : session.text.insert offset text with
  | error e => exact ⟨⟨[], rfl⟩, rfl⟩
  | ok edited =>
    refine ⟨⟨[.insert offset text], ?_⟩, rfl⟩
    simp only [LiveText.run_cons, LiveText.run_nil, LiveText.after, LiveText.call, made]

theorem remove (start stop : Nat) : EditsByCalls (remove start stop) := by
  intro session
  rw [outcome_remove]
  cases made : session.text.remove start stop with
  | error e => exact ⟨⟨[], rfl⟩, rfl⟩
  | ok edited =>
    refine ⟨⟨[.remove start stop], ?_⟩, rfl⟩
    simp only [LiveText.run_cons, LiveText.run_nil, LiveText.after, LiveText.call, made]

theorem replaceLive (start stop : Nat) (text : List Char) :
    EditsByCalls (replaceLive start stop text) := by
  have rest : EditsByCalls (if start < stop then
      Session.remove (start + text.length) (stop + text.length) else Pure.pure ()) :=
    ite _ (remove _ _) (pure ())
  exact ite _ ((insert _ _).bind fun _ => rest) rest

theorem replaceRange (range : Span) (text : List Char) :
    EditsByCalls (replaceRange range text) :=
  (locate _).bind fun _ => (locate _).bind fun _ => (checkLines _ _).bind fun _ =>
    (replaceLive _ _ _).bind fun _ => addFrame

theorem closeLiteral (quote : Char) (right : Operand) :
    EditsByCalls (closeLiteral quote right) := by
  unfold Session.closeLiteral
  split
  · exact ite _ (pure ()) (replaceLive _ _ _)
  · split
    · exact replaceLive _ _ _
    · exact insert _ _

theorem forM {ι : Type} {body : ι → Action PUnit} (each : ∀ i, EditsByCalls (body i))
    (items : List ι) : EditsByCalls (items.forM body) := by
  induction items with
  | nil => exact pure _
  | cons item rest ih => exact (each item).bind fun _ => ih

theorem escapeQuotes (quote : Char) (right : Operand) :
    EditsByCalls (escapeQuotes quote right) := by
  unfold Session.escapeQuotes
  split
  · exact ite _ (pure ()) (forM (fun _ => insert _ _) _)
  · exact pure ()

theorem mergeInPlace (quote : Char) (left right : Operand) (outer : Nat × Nat) :
    EditsByCalls (mergeInPlace quote left right outer) := by
  have opened : EditsByCalls (if left.quote?.isNone then do
      let start ← Session.locate left.span.start
      Session.insert start.offset [quote] else Pure.pure ()) :=
    ite _ ((locate _).bind fun _ => insert _ _) (pure ())
  have merged := (closeLiteral quote right).bind fun _ => (escapeQuotes quote right).bind fun _ =>
    (locate left.span.stop).bind fun gapStart => (locate right.span.start).bind fun gapStop =>
      (remove (gapStart.offset - left.margin) (gapStop.offset + right.margin)).bind fun _ =>
        ite (outer.1 < left.start) ((remove outer.1 left.start).bind fun _ => opened) opened
  exact ite (right.stop < outer.2) ((remove _ _).bind fun _ => merged) merged

theorem concatenate (left right : Span) : EditsByCalls (concatenate left right) := by
  refine (locate _).bind fun _ => (locate _).bind fun _ => (locate _).bind fun _ =>
    (locate _).bind fun _ => (checkLines _ _).bind fun _ => (slice _ _).bind fun _ =>
    (slice _ _).bind fun _ => get.bind fun session => ?_
  simp only
  split
  · exact (replaceLive _ _ _).bind fun _ => addFrame
  · exact (mergeInPlace _ _ _ _).bind fun _ => addFrame

theorem consumer (reduction : Reduction) : EditsByCalls (consumer reduction) := by
  cases reduction with
  | replace range text => exact replaceRange range text.toList
  | concatenate left right => exact concatenate left right

end EditsByCalls

/-- After any run of calls every source offset is found, within the live text, and
its offset, line and column are those of a fresh scan. A session adds no other
way to edit: what it makes of its text in any operation is a run of calls. -/
theorem lookup_agrees_with_scan :
    (∀ (source : List Char) (calls : List LiveText.Call) (offset : Nat),
      let t := (LiveText.ofText source).run calls
      offset < t.offsetCount →
        ∃ p, t.locate offset = .ok p ∧ p.offset ≤ t.live.length ∧
          Position.at? t.live p.offset = some p) ∧
    (∀ (session : Session) (reduction : Reduction), ∃ calls,
      (outcome (consumer reduction) session).2.text = session.text.run calls) := by
  constructor
  · intro source calls offset t addressable
    have sound : t.Sound := (LiveText.sound_ofText source).run calls
    have within : offset ≤ t.source.length := Nat.lt_succ_iff.mp addressable
    have inside := sound.inside within
    refine ⟨_, sound.scan within, ?_, ?_⟩
    · rw [Position.offset_origin_past, List.length_take]
      omega
    · rw [Position.offset_origin_past, List.length_take_of_le inside, Position.at?_eq,
        if_pos inside]
  · intro session reduction
    exact (EditsByCalls.consumer reduction session).1

/-- An insertion that breaks a line, a removal that joins two, and a refused call. -/
theorem lookup_agrees_with_scan_across_lines :
    let t := (LiveText.ofText ['a', 'b', '\n', 'c', 'd']).run
      [.insert 2 ['x', '\n', 'y'], .remove 1 4, .insert 99 ['z']]
    4 < t.offsetCount ∧
      ∃ p, t.locate 4 = .ok p ∧ p.offset ≤ t.live.length ∧
        Position.at? t.live p.offset = some p :=
  ⟨by decide, lookup_agrees_with_scan.1 ['a', 'b', '\n', 'c', 'd']
    [.insert 2 ['x', '\n', 'y'], .remove 1 4, .insert 99 ['z']] 4 (by decide)⟩

end Redex.Session
