import Redex.Proofs.Text.Lookup

/-! The log as an account of the live text. Every logged edit leads from the text
its call was made on to the text it left, so a log is a path from the source to
the live text. An inverse leads back along its edit: the inverses of a log, last
first, are a path back to the source, and a path can always be gone. A place that
no removal swallowed on the way there is itself again after the way back. -/
namespace Redex

namespace Edit

/-- The edit as a change of text. What is put in goes to the start offset; what is taken out has
to stand there. -/
def splice? : Edit → List Char → Option (List Char)
  | .insert start text, live =>
    if start.offset ≤ live.length then
      some (live.take start.offset ++ text ++ live.drop start.offset)
    else none
  | .remove start text, live =>
    if start.offset ≤ live.length ∧ text <+: live.drop start.offset then
      some (live.take start.offset ++ live.drop (start.offset + text.length))
    else none

/-- What edits make of a text, one after another. -/
def replay? (edits : List Edit) (text : List Char) : Option (List Char) :=
  edits.foldlM (fun text edit => edit.splice? text) text

/-- The edit begins at the end of a prefix of one text and leads to another text. -/
inductive Leads : Edit → List Char → List Char → Prop where
  | insert (before text rest : List Char) :
      Leads (.insert (Position.origin.past before) text) (before ++ rest) (before ++ text ++ rest)
  | remove (before text rest : List Char) :
      Leads (.remove (Position.origin.past before) text) (before ++ text ++ rest) (before ++ rest)

/-- Each edit leads on from where the one before it led to. -/
inductive Path : List Edit → List Char → List Char → Prop where
  | nil (text : List Char) : Path [] text text
  | cons {edit : Edit} {rest : List Edit} {first next last : List Char} :
      edit.Leads first next → Path rest next last → Path (edit :: rest) first last

section
variable {edit : Edit} {edits more : List Edit} {first next last : List Char} {offset : Nat}

theorem Leads.inverse (leads : edit.Leads first next) : edit.inverse.Leads next first := by
  cases leads with
  | insert before text rest => exact .remove before text rest
  | remove before text rest => exact .insert before text rest

theorem Leads.splice? (leads : edit.Leads first next) : edit.splice? first = some next := by
  cases leads with
  | insert before text rest =>
    have fits : before.length ≤ (before ++ rest).length := by
      rw [List.length_append]
      omega
    simp only [Edit.splice?, Position.offset_origin_past, fits, if_true, List.take_left,
      List.drop_left]
  | remove before text rest =>
    have fits : before.length ≤ (before ++ (text ++ rest)).length := by
      rw [List.length_append]
      omega
    have kept : (before ++ (text ++ rest)).drop (before.length + text.length) = rest := by
      rw [← List.append_assoc, ← List.length_append, List.drop_left]
    simp only [Edit.splice?, Position.offset_origin_past, List.append_assoc, List.take_left,
      List.drop_left, List.prefix_append, fits, kept, and_self, if_true]

theorem Path.single (leads : edit.Leads first next) : Path [edit] first next :=
  .cons leads (.nil next)

theorem Path.append (one : Path edits first next) (two : Path more next last) :
    Path (edits ++ more) first last := by
  induction one with
  | nil => exact two
  | cons leads _ ih => exact .cons leads (ih two)

/-- The way back. -/
theorem Path.reverse (path : Path edits first last) :
    Path (edits.reverse.map Edit.inverse) last first := by
  induction path with
  | nil text => exact .nil text
  | cons leads _ ih =>
    rw [List.reverse_cons, List.map_append]
    exact ih.append (.single leads.inverse)

theorem Path.replay? (path : Path edits first last) : Edit.replay? edits first = some last := by
  induction path with
  | nil => rfl
  | cons leads _ ih =>
    rw [Edit.replay?, List.foldlM_cons, leads.splice?]
    exact ih

/-- Whether an offset is outside the span that the edit removes. The start of a span is outside
of it and its end is not. -/
def Spares : Edit → Nat → Prop
  | .insert _ _, _ => True
  | .remove start text, offset => offset ≤ start.offset ∨ start.offset + text.length < offset

/-- Whether all of these edits spare an offset on its way across them. -/
def AllSpare : List Edit → Nat → Prop
  | [], _ => True
  | edit :: rest, offset => edit.Spares offset ∧ AllSpare rest (edit.shift offset)

theorem shift_inverse (spares : edit.Spares offset) :
    edit.inverse.shift (edit.shift offset) = offset := by
  cases edit with
  | insert start text =>
    simp only [inverse, shift]
    by_cases early : offset ≤ start.offset
    · simp only [early, if_true]
    · rw [if_neg early, if_neg (by omega), if_neg (by omega)]
      omega
  | remove start text =>
    simp only [inverse, shift]
    by_cases early : offset ≤ start.offset
    · simp only [early, if_true]
    · have late : ¬ offset ≤ start.offset + text.length :=
        Nat.not_le.mpr (spares.resolve_left early)
      rw [if_neg early, if_neg late, if_neg (by omega)]
      omega

/-- There and back again. -/
theorem foldl_shift_reverse (spare : AllSpare edits offset) :
    (edits ++ edits.reverse.map Edit.inverse).foldl (fun offset edit => edit.shift offset) offset =
      offset := by
  induction edits generalizing offset with
  | nil => rfl
  | cons edit rest ih =>
    rw [List.reverse_cons, List.map_append, List.cons_append, List.foldl_cons, ← List.append_assoc,
      List.foldl_append, ih spare.2]
    exact shift_inverse spare.1

end
end Edit

namespace LiveText

/-- What an accepted call leaves in the log. -/
def entry (t : LiveText) : Call → Edit
  | .insert offset text => .insert (Position.origin.past (t.live.take offset)) text
  | .remove start stop =>
    .remove (Position.origin.past (t.live.take start)) ((t.live.take stop).drop start)

/-- The calls of a run that are accepted, each with the text that it is made on. -/
def accepted (t : LiveText) : List Call → List (LiveText × Call)
  | [] => []
  | c :: rest =>
    match t.call c with
    | .ok edited => (t, c) :: edited.accepted rest
    | .error _ => t.accepted rest

/-- Performs edits one after another. -/
def performAll (t : LiveText) (edits : List Edit) : Except Error LiveText :=
  edits.foldlM perform t

/-- Performs the inverses of all logged edits, from the last to the first. -/
def undoAll (t : LiveText) : Except Error LiveText :=
  t.performAll (t.log.reverse.map Edit.inverse)

variable {t edited : LiveText} {c : Call}

theorem call_leads (done : t.call c = .ok edited) :
    (t.entry c).Leads t.live edited.live ∧
      edited = ⟨t.source, edited.live, t.log ++ [t.entry c]⟩ := by
  obtain ⟨before, text, rest, rfl, live, rfl⟩ | ⟨before, removed, rest, rfl, live, rfl⟩ :=
    call_cases done
  · have entry : t.entry (.insert before.length text) =
        .insert (Position.origin.past before) text := by
      rw [LiveText.entry, live, List.take_left]
    rw [entry, live]
    exact ⟨.insert before text rest, rfl⟩
  · have start : t.live.take before.length = before := by
      rw [live, List.append_assoc, List.take_left]
    have taken : (t.live.take (before.length + removed.length)).drop before.length = removed := by
      rw [live, ← List.length_append, List.take_left, List.drop_left]
    have entry : t.entry (.remove before.length (before.length + removed.length)) =
        .remove (Position.origin.past before) removed := by
      rw [LiveText.entry, start, taken]
    rw [entry, live]
    exact ⟨.remove before removed rest, rfl⟩

theorem after_of_ok (done : t.call c = .ok edited) : t.after c = edited := by
  rw [after, done]

theorem after_of_error {e : Error} (refused : t.call c = .error e) : t.after c = t := by
  rw [after, refused]

theorem accepted_of_ok (done : t.call c = .ok edited) (rest : List Call) :
    t.accepted (c :: rest) = (t, c) :: edited.accepted rest := by
  rw [accepted, done]

theorem accepted_of_error {e : Error} (refused : t.call c = .error e) (rest : List Call) :
    t.accepted (c :: rest) = t.accepted rest := by
  rw [accepted, refused]

/-- The log grows by the entries of the accepted calls, and they lead to the text that is left. -/
theorem run_leads (t : LiveText) (calls : List Call) :
    (t.run calls).log = t.log ++ (t.accepted calls).map (fun made => made.1.entry made.2) ∧
      Edit.Path ((t.accepted calls).map fun made => made.1.entry made.2) t.live
        (t.run calls).live := by
  induction calls generalizing t with
  | nil => exact ⟨(List.append_nil _).symm, .nil _⟩
  | cons c rest ih =>
    rw [run_cons]
    cases made : t.call c with
    | error e =>
      rw [after_of_error made, accepted_of_error made]
      exact ih t
    | ok edited =>
      obtain ⟨leads, same⟩ := call_leads made
      obtain ⟨log, path⟩ := ih edited
      rw [after_of_ok made, accepted_of_ok made, List.map_cons]
      refine ⟨?_, .cons leads path⟩
      rw [log, congrArg LiveText.log same, List.append_assoc, List.singleton_append]

theorem perform_leads {edit : Edit} {next : List Char} (leads : edit.Leads t.live next) :
    t.perform edit = .ok ⟨t.source, next, t.log ++ [edit]⟩ := by
  generalize live : t.live = text at leads
  cases leads with
  | insert before text rest =>
    rw [perform, Position.offset_origin_past, insert_eq live]
  | remove before text rest =>
    rw [perform, Position.offset_origin_past, remove_eq live]

/-- A path is accepted all the way. -/
theorem performAll_path {edits : List Edit} {last : List Char}
    (path : Edit.Path edits t.live last) :
    t.performAll edits = .ok ⟨t.source, last, t.log ++ edits⟩ := by
  generalize live : t.live = text at path
  induction path generalizing t with
  | nil =>
    rw [List.append_nil, ← live]
    rfl
  | @cons edit rest first next last leads path ih =>
    rw [← live] at leads
    have further := ih (t := ⟨t.source, next, t.log ++ [edit]⟩) rfl
    rw [List.append_assoc, List.singleton_append] at further
    rw [performAll, List.foldlM_cons, perform_leads leads]
    exact further

theorem performAll_sound {edits : List Edit} (sound : t.Sound)
    (done : t.performAll edits = .ok edited) : edited.Sound := by
  induction edits generalizing t with
  | nil =>
    cases done
    exact sound
  | cons edit rest ih =>
    rw [performAll, List.foldlM_cons] at done
    cases performed : t.perform edit with
    | error e =>
      rw [performed] at done
      contradiction
    | ok next =>
      rw [performed] at done
      refine ih ?_ done
      cases edit with
      | insert start text => exact sound.call (c := .insert _ _) performed
      | remove start text => exact sound.call (c := .remove _ _) performed

/-- Whether no removal that was accepted took away what is just before the place of an offset. -/
def Undisturbed (made : List (LiveText × Call)) (offset : Nat) : Prop :=
  ∀ m ∈ made, ∀ start stop, m.2 = .remove start stop → ∀ p, m.1.locate offset = .ok p →
    ¬ (start < p.offset ∧ p.offset ≤ stop)

theorem spares_of_undisturbed {offset : Nat} (sound : t.Sound)
    (within : offset ≤ t.source.length) (done : t.call c = .ok edited)
    (undisturbed : Undisturbed [(t, c)] offset) : (t.entry c).Spares (t.place offset) := by
  cases c with
  | insert => trivial
  | remove start stop =>
    obtain ⟨p, found, there⟩ := sound.found within
    have outside := undisturbed _ (List.mem_singleton_self _) start stop rfl p found
    obtain ⟨ordered, inside⟩ : start ≤ stop ∧ stop ≤ t.live.length :=
      accepts_iff.mp ⟨edited, done⟩
    rw [there] at outside
    simp only [entry, Edit.Spares, Position.offset_origin_past, List.length_drop,
      List.length_take]
    omega

theorem allSpare_of_undisturbed {offset : Nat} (calls : List Call) (sound : t.Sound)
    (within : offset ≤ t.source.length) (undisturbed : Undisturbed (t.accepted calls) offset) :
    Edit.AllSpare ((t.accepted calls).map fun made => made.1.entry made.2) (t.place offset) := by
  induction calls generalizing t with
  | nil => trivial
  | cons c rest ih =>
    cases made : t.call c with
    | error e =>
      rw [accepted_of_error made] at undisturbed ⊢
      exact ih sound within undisturbed
    | ok edited =>
      rw [accepted_of_ok made] at undisturbed ⊢
      obtain ⟨-, same⟩ := call_leads made
      have place : edited.place offset = (t.entry c).shift (t.place offset) := by
        rw [same, place_logged]
      have source : edited.source = t.source := by rw [same]
      have first := spares_of_undisturbed sound within made fun m member =>
        undisturbed m (List.mem_singleton.mp member ▸ List.mem_cons_self)
      have later := ih (sound.call made) (source ▸ within) fun m member =>
        undisturbed m (List.mem_cons_of_mem _ member)
      rw [place] at later
      exact ⟨first, later⟩

/-- The log has one entry for each accepted call, in the order of the calls, and replaying it on
the source gives the live text. The inverses of its edits, performed from the last to the first,
are all accepted and give the source again; they are logged too. After that every offset is looked
up where it was at first unless, at some time in the run, its place was in a span that was then
removed, the start of the span left out and its end counted in. -/
theorem log_accounts_for_text (source : List Char) (calls : List Call) :
    let t := (ofText source).run calls
    let made := (ofText source).accepted calls
    t.log = made.map (fun m => m.1.entry m.2) ∧
    Edit.replay? t.log source = some t.live ∧
    ∃ undone, t.undoAll = .ok undone ∧ undone.live = source ∧
      undone.log = t.log ++ t.log.reverse.map Edit.inverse ∧
      ∀ offset, offset < (ofText source).offsetCount → Undisturbed made offset →
        ∃ p, (ofText source).locate offset = .ok p ∧ undone.locate offset = .ok p := by
  intro t made
  obtain ⟨log, path⟩ := run_leads (ofText source) calls
  have log : t.log = made.map (fun m => m.1.entry m.2) := log
  rw [← log] at path
  have undone : t.undoAll = .ok ⟨t.source, source, t.log ++ t.log.reverse.map Edit.inverse⟩ :=
    performAll_path path.reverse
  refine ⟨log, path.replay?, _, undone, rfl, rfl, ?_⟩
  intro offset addressable undisturbed
  have within : offset ≤ source.length := Nat.lt_succ_iff.mp addressable
  have spare : Edit.AllSpare t.log offset := by
    rw [log]
    exact allSpare_of_undisturbed calls (sound_ofText source) within undisturbed
  -- The undone text is the source, so all there is to see is that the place is the offset again.
  refine ⟨_, (sound_ofText source).scan within, ?_⟩
  have sound : t.Sound := (sound_ofText source).run calls
  have same : t.source = source := source_run _ calls
  rw [(performAll_sound sound undone).scan (same.symm ▸ within), place,
    Edit.foldl_shift_reverse spare]
  rfl

/-- A line feed is put in, a call is refused, and all from `b` to `c` goes. The place of the end
stays behind what goes, and after the undoing it is the end of the source again. -/
theorem log_accounts_for_text_across_lines :
    let source := ['a', 'b', '\n', 'c', 'd']
    let calls := [.insert 2 ['x', '\n'], .insert 99 ['z'], .remove 1 6]
    let t := (ofText source).run calls
    5 < (ofText source).offsetCount ∧ Undisturbed ((ofText source).accepted calls) 5 ∧
      t.live = ['a', 'd'] ∧
      ∃ undone, t.undoAll = .ok undone ∧ undone.live = source ∧
        undone.locate 5 = .ok ⟨5, 1, 2⟩ := by
  intro source calls t
  have addressable : 5 < (ofText source).offsetCount := by decide
  have undisturbed : Undisturbed ((ofText source).accepted calls) 5 := by
    have made : (ofText source).accepted calls =
        [(ofText source, .insert 2 ['x', '\n']),
          ((ofText source).run [.insert 2 ['x', '\n']], .remove 1 6)] := rfl
    intro m member start stop removal p found
    simp only [made, List.mem_cons, List.not_mem_nil, or_false] at member
    obtain rfl | rfl := member
    · contradiction
    · cases removal
      cases found
      decide
  obtain ⟨-, -, undone, done, restored, -, back⟩ := log_accounts_for_text source calls
  obtain ⟨p, first, last⟩ := back 5 addressable undisturbed
  cases first
  exact ⟨addressable, undisturbed, rfl, undone, done, restored, last⟩

end LiveText
end Redex
