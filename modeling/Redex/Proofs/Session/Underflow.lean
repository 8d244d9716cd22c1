import Redex.Proofs.Session.Atomicity
import Redex.Proofs.Session.Counting

/-! No difference goes below zero. A lookup carries a position of one text across
an edit of the same text. In a session an edit that is accepted shows that the
offsets it was asked for are within the live text, so sums need no account of their
own. The two differences do: a right operand whose last character is replaced is
not empty, and the place where the left operand ends has the closing quote before
it that is taken off there. That place is the start of the text only if the left
operand is empty, and then nothing is taken off. What is counted in short texts is
therefore the same whether counters wrap or are checked. -/
namespace Redex.Session

open Arithmetic (limit)

variable {α β : Type} {a : Arithmetic} {session left : Session}

theorem within_of_inserted {offset : Nat} {text : List Char}
    (inserted : outcome (insert offset text) session = (.ok (), left)) :
    offset ≤ session.text.live.length := by
  rw [outcome_insert] at inserted
  cases made : session.text.insert offset text with
  | error e =>
    rw [made] at inserted
    cases inserted
  | ok edited => exact (LiveText.accepts_iff (c := .insert offset text)).mp ⟨edited, made⟩

theorem within_of_removed {start stop : Nat}
    (removed : outcome (remove start stop) session = (.ok (), left)) :
    start ≤ stop ∧ stop ≤ session.text.live.length := by
  rw [outcome_remove] at removed
  cases made : session.text.remove start stop with
  | error e =>
    rw [made] at removed
    cases removed
  | ok edited => exact (LiveText.accepts_iff (c := .remove start stop)).mp ⟨edited, made⟩

/-- On a session whose text is traced, the counted action does what the action does if that
succeeds and leaves a short text. -/
def CountsAt (counted : Counted α) (action : Action α) (session : Session) : Prop :=
  ∀ x left, session.text.Traced → left.text.Short → outcome action session = (.ok x, left) →
    tally counted session = some (.ok x, left)

/-- An action that edits by calls, and a counted one that does the same on every session. -/
structure Counts (counted : Counted α) (action : Action α) : Prop where
  byCalls : EditsByCalls action
  counts : ∀ session, CountsAt counted action session

theorem EditsByCalls.traced {action : Action α} (byCalls : EditsByCalls action)
    (traced : session.text.Traced) : (outcome action session).2.text.Traced := by
  obtain ⟨⟨calls, edited⟩, -⟩ := byCalls session
  rw [edited]
  exact traced.run calls

theorem EditsByCalls.short {action : Action α} (byCalls : EditsByCalls action)
    (short : (outcome action session).2.text.Short) : session.text.Short := by
  obtain ⟨⟨calls, edited⟩, -⟩ := byCalls session
  rw [edited] at short
  exact short.of_run

theorem CountsAt.bind {counted : Counted α} {action : Action α} {further : α → Counted β}
    {next : α → Action β} (one : CountsAt counted action session) (first : EditsByCalls action)
    (second : ∀ x, EditsByCalls (next x))
    (two : ∀ x mid, outcome action session = (.ok x, mid) → CountsAt (further x) (next x) mid) :
    CountsAt (counted >>= further) (action >>= next) session := by
  intro y left traced short ran
  obtain ⟨x, mid, made, rest⟩ := outcome_bind_eq_ok ran
  have midTraced : mid.text.Traced := by
    have := first.traced traced
    rwa [made] at this
  have midShort : mid.text.Short := (second x).short (by rwa [rest])
  rw [tally_bind_of_ok (one x mid traced midShort made)]
  exact two x mid made y left midTraced short rest

/-- An exact difference. -/
theorem CountsAt.sub {m n : Nat} {further : Nat → Counted β} {action : Action β} (exact : a.Exact)
    (word : session.text.Short → session.text.Traced → m < limit) (ordered : n ≤ m)
    (byCalls : EditsByCalls action) (rest : CountsAt (further (m - n)) action session) :
    CountsAt (count (a.sub? m n) >>= further) action session := by
  intro y left traced short ran
  have here : session.text.Short := byCalls.short (by rwa [ran])
  rw [exact.sub (word here traced) ordered]
  exact rest y left traced short ran

/-- A sum that is within the text whenever the action succeeds. -/
theorem CountsAt.add {m n : Nat} {further : Nat → Counted β} {action : Action β} (exact : a.Exact)
    (within : ∀ {y left}, outcome action session = (.ok y, left) →
      m + n ≤ session.text.live.length)
    (byCalls : EditsByCalls action) (rest : CountsAt (further (m + n)) action session) :
    CountsAt (count (a.add? m n) >>= further) action session := by
  intro y left traced short ran
  have here : session.text.Short := byCalls.short (by rwa [ran])
  have room : m + n < limit := Nat.lt_of_le_of_lt (within ran) (traced.live_short here)
  rw [exact.add room]
  exact rest y left traced short ran

namespace Counts

theorem pure (x : α) : Counts (pure x) (pure x) where
  byCalls := .pure x
  counts _ _ _ _ _ ran := by
    cases ran
    rfl

theorem bind {counted : Counted α} {action : Action α} {further : α → Counted β}
    {next : α → Action β} (one : Counts counted action)
    (two : ∀ x, Counts (further x) (next x)) : Counts (counted >>= further) (action >>= next) where
  byCalls := one.byCalls.bind fun x => (two x).byCalls
  counts session := CountsAt.bind (one.counts session) one.byCalls (fun x => (two x).byCalls)
    fun x mid _ => (two x).counts mid

theorem ite (condition : Prop) [Decidable condition] {yes no : Counted α} {yes' no' : Action α}
    (first : Counts yes yes') (second : Counts no no') :
    Counts (if condition then yes else no) (if condition then yes' else no') := by
  split
  · exact first
  · exact second

theorem addFrame : Counts (ofAction addFrame) addFrame where
  byCalls := .addFrame
  counts _ _ _ _ _ ran := congrArg some ran

theorem forM {ι : Type} {body : ι → Counted PUnit} {body' : ι → Action PUnit}
    (each : ∀ i, Counts (body i) (body' i)) (items : List ι) :
    Counts (items.forM body) (items.forM body') := by
  induction items with
  | nil => exact pure _
  | cons item rest ih => exact (each item).bind fun _ => ih

theorem of_tally {counted : Counted α} {action : Action α} (byCalls : EditsByCalls action)
    (same : ∀ {session : Session}, session.text.Traced → session.text.Short →
      tally counted session = some (outcome action session)) : Counts counted action where
  byCalls := byCalls
  counts session x left traced short ran := by
    have here : session.text.Short := byCalls.short (by rwa [ran])
    rw [same traced here, ran]

section
variable (exact : a.Exact)
include exact

theorem locate (offset : Nat) : Counts (locateBy a offset) (locate offset) :=
  of_tally (.locate offset) fun traced short => tally_locateBy exact traced short offset

theorem insert (offset : Nat) (text : List Char) :
    Counts (insertBy a offset text) (insert offset text) :=
  of_tally (.insert offset text) fun traced short => tally_insertBy exact traced short offset text

theorem remove (start stop : Nat) : Counts (removeBy a start stop) (remove start stop) :=
  of_tally (.remove start stop) fun traced short => tally_removeBy exact traced short start stop

theorem add {m n : Nat} {further : Nat → Counted β} {action : Action β}
    (within : ∀ {session y left}, outcome action session = (.ok y, left) →
      m + n ≤ session.text.live.length)
    (rest : Counts (further (m + n)) action) :
    Counts (count (a.add? m n) >>= further) action where
  byCalls := rest.byCalls
  counts session := CountsAt.add exact within rest.byCalls (rest.counts session)

theorem sub {m n : Nat} {further : Nat → Counted β} {action : Action β} (word : m < limit)
    (ordered : n ≤ m) (rest : Counts (further (m - n)) action) :
    Counts (count (a.sub? m n) >>= further) action where
  byCalls := rest.byCalls
  counts session := CountsAt.sub exact (fun _ _ => word) ordered rest.byCalls (rest.counts session)

theorem trim (start stop : Nat) : Counts (trimBy a start stop) (trim start stop) :=
  ite _ (remove exact start stop) (pure ())

theorem replaceLive (start stop : Nat) (text : List Char) :
    Counts (replaceLiveBy a start stop text) (replaceLive start stop text) := by
  have removal : Counts (if start < stop then do
        removeBy a (← count (a.add? start text.length)) (← count (a.add? stop text.length))
      else Pure.pure ())
      (if start < stop then Session.remove (start + text.length) (stop + text.length)
      else Pure.pure ()) := by
    refine ite _ (add exact ?_ (add exact ?_ (remove exact _ _))) (pure ())
    · intro session _ left removed
      obtain ⟨ordered, within⟩ := within_of_removed removed
      exact Nat.le_trans ordered within
    · intro session _ left removed
      exact (within_of_removed removed).2
  exact ite _ ((insert exact _ _).bind fun _ => removal) removal

theorem closeLiteral (quote : Char) (right : Operand) (word : right.stop < limit)
    (solid : right.text ≠ [] → 1 ≤ right.stop) :
    Counts (closeLiteralBy a quote right) (closeLiteral quote right) := by
  unfold closeLiteralBy Session.closeLiteral
  cases quoted : right.quote? with
  | some own =>
    have filled : right.text ≠ [] := by
      intro empty
      rw [Operand.quote?, empty] at quoted
      contradiction
    exact ite _ (pure ()) (sub exact word (solid filled) (replaceLive exact _ _ _))
  | none =>
    cases ends : right.text.getLast? with
    | some last =>
      have filled : right.text ≠ [] := by
        intro empty
        rw [empty] at ends
        contradiction
      exact sub exact word (solid filled) (replaceLive exact _ _ _)
    | none => exact insert exact _ _

theorem escapeQuotes (quote : Char) (right : Operand) :
    Counts (escapeQuotesBy a quote right) (escapeQuotes quote right) := by
  unfold escapeQuotesBy Session.escapeQuotes
  cases right.quote? with
  | some own =>
    refine ite _ (pure ()) (forM (fun index => ?_) _)
    refine add exact ?_ (add exact ?_ (insert exact _ _))
    · intro session _ left inserted
      exact Nat.le_trans (Nat.le_add_right _ _) (within_of_inserted inserted)
    · intro session _ left inserted
      exact within_of_inserted inserted
  | none => exact pure ()

theorem finishRight (quote : Char) (right : Operand) (outer : Nat × Nat) (word : right.stop < limit)
    (solid : right.text ≠ [] → 1 ≤ right.stop) :
    Counts (finishRightBy a quote right outer) (finishRight quote right outer) :=
  (trim exact _ _).bind fun _ => (closeLiteral exact quote right word solid).bind fun _ =>
    escapeQuotes exact quote right

theorem openLiteral (quote : Char) (left : Operand) :
    Counts (openLiteralBy a quote left) (openLiteral quote left) :=
  ite _ ((locate exact _).bind fun _ => insert exact _ _) (pure ())

end
end Counts

theorem EditsByCalls.closeGap (left right : Operand) : EditsByCalls (closeGap left right) :=
  (locate _).bind fun _ => (locate _).bind fun _ => remove _ _

theorem EditsByCalls.joinLeft (quote : Char) (left right : Operand) (outer : Nat × Nat) :
    EditsByCalls (joinLeft quote left right outer) :=
  (closeGap left right).bind fun _ => (ite _ (remove _ _) (pure ())).bind fun _ =>
    ite _ ((locate _).bind fun _ => insert _ _) (pure ())

/-- What is taken off at the end of the left operand is there to be taken off. -/
theorem countsAt_closeGap (exact : a.Exact) {left right : Operand} (sound : session.text.Sound)
    (marked : left.margin ≤ session.text.place left.span.stop) :
    CountsAt (closeGapBy a left right) (closeGap left right) session := by
  refine CountsAt.bind ((Counts.locate exact _).counts session) (.locate _)
    (fun _ => (EditsByCalls.locate _).bind fun _ => .remove _ _) ?_
  intro gapStart mid found
  obtain ⟨rfl, within, there, -⟩ := outcome_locate_eq_ok found
  have removal (gapStop : Position) : Counts
      (count (a.add? gapStop.offset right.margin) >>= fun stop =>
        removeBy a (gapStart.offset - left.margin) stop)
      (remove (gapStart.offset - left.margin) (gapStop.offset + right.margin)) :=
    Counts.add exact (fun removed => (within_of_removed removed).2) (Counts.remove exact _ _)
  have rest := (Counts.locate exact right.span.start).bind removal
  refine CountsAt.sub exact ?_ (there ▸ marked) rest.byCalls (rest.counts mid)
  intro short traced
  rw [there]
  exact Nat.lt_of_le_of_lt (sound.inside within) (traced.live_short short)

theorem Operand.margin_le_length (x : Operand) : x.margin ≤ x.text.length := by
  have text := congrArg List.length x.text_eq
  rw [x.margin_eq]
  simp only [List.length_append] at text
  omega

namespace Found

variable {left right : Operand}

/-- An operand ends at least as far on as it is long. -/
theorem length_le_stop (found : Found session left right) :
    left.text.length ≤ left.stop ∧ right.text.length ≤ right.stop := by
  obtain ⟨_, _, -, -, leftLast⟩ := LiveText.slice_cases found.leftText
  obtain ⟨_, _, -, -, rightLast⟩ := LiveText.slice_cases found.rightText
  rw [leftLast, rightLast, List.length_append, List.length_append]
  exact ⟨Nat.le_add_left _ _, Nat.le_add_left _ _⟩

theorem margin_le_stop (found : Found session left right) : left.margin ≤ left.stop :=
  Nat.le_trans left.margin_le_length found.length_le_stop.1

/-- A right operand that is not empty ends behind the first offset. -/
theorem one_le_stop (found : Found session left right) (filled : right.text ≠ []) :
    1 ≤ right.stop :=
  Nat.le_trans (List.length_pos_iff.mpr filled) found.length_le_stop.2

/-- A left operand that ends at the first offset is empty, and nothing is taken off it. -/
theorem empty_of_stop_eq_zero (found : Found session left right) (start : left.stop = 0) :
    left.text = [] ∧ left.margin = 0 := by
  have length := found.length_le_stop.1
  have margin := found.margin_le_stop
  rw [start, Nat.le_zero] at length margin
  exact ⟨List.length_eq_zero_iff.mp length, margin⟩

/-- The right operand is finished without moving the end of the left one. -/
theorem finishRight_keeps (found : Found session left right) (sound : session.text.Sound)
    {outer : Nat × Nat}
    (enclosed : Grouping.enclosing? session.text.live left.start left.stop right.start right.stop =
      some outer) (quote : Char) :
    ∃ edited, outcome (finishRight quote right outer) session =
        (.ok (), { session with text := edited }) ∧
      edited.Sound ∧ edited.source = session.text.source ∧
      edited.place left.span.stop = left.stop := by
  obtain ⟨before, opens, between, closes, rest, apart, -, last⟩ := found.apart sound enclosed
  obtain ⟨edited, finished, -⟩ := finishRight_achieves apart.text_eq apart.rightStart
    apart.rightStop last quote
  refine ⟨edited, finished.ran, finished.changes.sound sound, finished.changes.source, ?_⟩
  rw [found.leftLocated.stop_eq]
  apply finished.changes.ahead
  rw [← found.leftLocated.stop_eq, apart.leftStop]
  simp only [List.length_append]
  omega

end Found

theorem countsAt_joinLeft (exact : a.Exact) {left right : Operand} (sound : session.text.Sound)
    (marked : left.margin ≤ session.text.place left.span.stop) (quote : Char)
    (outer : Nat × Nat) :
    CountsAt (joinLeftBy a quote left right outer) (joinLeft quote left right outer) session := by
  have rest := (Counts.trim exact outer.1 left.start).bind fun _ =>
    Counts.openLiteral exact quote left
  exact CountsAt.bind (countsAt_closeGap exact sound marked) (.closeGap left right)
    (fun _ => rest.byCalls) fun _ mid _ => rest.counts mid

theorem countsAt_mergeInPlace (exact : a.Exact) {left right : Operand}
    (word : right.stop < limit) (sound : session.text.Sound) (found : Found session left right)
    {outer : Nat × Nat}
    (enclosed : Grouping.enclosing? session.text.live left.start left.stop right.start right.stop =
      some outer) (quote : Char) :
    CountsAt (mergeInPlaceBy a quote left right outer) (mergeInPlace quote left right outer)
      session := by
  have finish := Counts.finishRight exact quote right outer word found.one_le_stop
  rw [mergeInPlace_eq]
  refine CountsAt.bind (finish.counts session) finish.byCalls
    (fun _ => .joinLeft quote left right outer) ?_
  -- How much is ahead of the gap is only known in the session that the first half leaves.
  intro _ mid made
  obtain ⟨edited, finished, soundMid, -, kept⟩ := found.finishRight_keeps sound enclosed quote
  obtain rfl : mid = { session with text := edited } :=
    congrArg Prod.snd (made.symm.trans finished)
  exact countsAt_joinLeft exact soundMid (kept ▸ found.margin_le_stop) quote outer

theorem countsAt_mergeOperands (exact : a.Exact) {left right : Operand}
    (traced : session.text.Traced) (short : session.text.Short) (sound : session.text.Sound)
    (found : Found session left right) :
    CountsAt (mergeOperandsBy a left right) (mergeOperands left right) session := by
  have word : right.stop < limit :=
    Nat.lt_of_le_of_lt (found.within sound).2 (traced.live_short short)
  intro x edited _ short' ran
  rw [mergeOperands, outcome_bind_of_ok (outcome_get session)] at ran
  rw [mergeOperandsBy, tally_bind_of_ok (tally_get session)]
  cases enclosed : Grouping.enclosing? session.text.live left.start left.stop right.start
      right.stop with
  | none =>
    simp only [enclosed] at ran ⊢
    have replaced := (Counts.replaceLive exact left.start right.stop
      (mergedLiteral (session.quoteFor left right) left right)).bind fun _ => Counts.addFrame
    exact replaced.counts session x edited traced short' ran
  | some outer =>
    simp only [enclosed] at ran ⊢
    have merged := CountsAt.bind (countsAt_mergeInPlace exact word sound found enclosed
      (session.quoteFor left right)) (.mergeInPlace _ left right outer) (fun _ => .addFrame)
      fun _ mid _ => Counts.addFrame.counts mid
    exact merged x edited traced short' ran

/-- An operation that leaves a short text is the same by every arithmetic that is exact on words. -/
theorem tally_consumerBy (exact : a.Exact) (traced : session.text.Traced)
    (sound : session.text.Sound) (reduction : Reduction)
    (short : (outcome (consumer reduction) session).2.text.Short) :
    tally (consumerBy a reduction) session = some (outcome (consumer reduction) session) := by
  have here : session.text.Short := (EditsByCalls.consumer reduction).short short
  have locates := tally_locateBy exact traced here
  cases reduction with
  | replace range text =>
    refine tally_bind_of_reads (locates _) (.locate _) fun start found₁ => ?_
    refine tally_bind_of_reads (locates _) (.locate _) fun stop found₂ => ?_
    refine tally_bind_of_reads rfl (.checkLines _ _) fun _ checked => ?_
    obtain ⟨-, within₁, there₁, -⟩ := outcome_locate_eq_ok found₁
    obtain ⟨-, within₂, there₂, -⟩ := outcome_locate_eq_ok found₂
    obtain ⟨edited, _, _, -, replaced⟩ := replaceLive_rewrites
      (there₁ ▸ sound.inside within₁) (there₂ ▸ sound.inside within₂) text.toList
    have ran := outcome_addFrame_after replaced.ran
    have whole : outcome (consumer (.replace range text)) session =
        (.ok (), session.shown edited) := by
      rw [consumer, replaceRange, outcome_bind_of_ok found₁, outcome_bind_of_ok found₂,
        outcome_bind_of_ok checked, ran]
    rw [whole] at short
    rw [ran]
    have edits := (Counts.replaceLive exact start.offset stop.offset text.toList).bind
      fun _ => Counts.addFrame
    exact edits.counts session () (session.shown edited) traced short ran
  | concatenate left right =>
    rw [consumer, concatenate_eq] at short ⊢
    refine tally_bind_of_reads (tally_readOperandsBy exact traced here left right)
      (.readOperands left right) fun operands read => ?_
    obtain ⟨-, -, found⟩ := readOperands_found read
    obtain ⟨edited, ran⟩ := mergeOperands_succeeds sound found
    rw [outcome_bind_of_ok read, ran] at short
    rw [ran]
    exact countsAt_mergeOperands exact traced here sound found () (session.shown edited) traced
      short ran

theorem Reachable.traced (reachable : Reachable session) : session.text.Traced := by
  induction reachable with
  | ofText source options => exact LiveText.traced_ofText source
  | apply _ reduction ih => exact (EditsByCalls.consumer reduction).traced ih

/-- No character of an empty right operand is replaced. -/
theorem closeLiteral_of_empty {right : Operand} (empty : right.text = []) (quote : Char) :
    closeLiteral quote right = insert right.stop [quote] := by
  have bare : right.quote? = none := by
    rw [Operand.quote?, empty]
    rfl
  simp only [closeLiteral, bare, empty, List.getLast?_nil]

/-- No difference that a run takes is of a number and a greater one. Whatever calls were made, each
step of a lookup subtracts from an offset, line or column one that is not greater. Whatever
operations were applied, and whatever spans are asked for, the end of a right operand that loses
its last character is at least one. Once the right operand is finished the left one ends where it
did, and no more than that is taken off there. That place is at least one too, unless the left
operand is empty and at the start of the text, where zero is taken off zero. As long as all texts
are short, lookups, calls and operations therefore come to the same if counters wrap and if they
are checked, and that is what they come to in natural numbers. -/
theorem counting_never_underflows :
    (∀ (source : List Char) (calls : List LiveText.Call) (offset : Nat)
        (before after : List Edit) (edit : Edit),
      let t := (LiveText.ofText source).run calls
      offset ≤ source.length → t.log = before ++ edit :: after →
        let p := before.foldl (fun p edit => edit.carry p)
          (Position.origin.past (source.take offset))
        edit.Subtracts p ∧ (t.Short → edit.carryWord p = edit.carry p)) ∧
    (∀ (session : Session) (leftSpan rightSpan : Span) (left right : Operand), Reachable session →
      outcome (readOperands leftSpan rightSpan) session = (.ok (left, right), session) →
        (right.text = [] → ∀ quote, closeLiteral quote right = insert right.stop [quote]) ∧
        (right.text ≠ [] → 1 ≤ right.stop) ∧
        ∀ outer, Grouping.enclosing? session.text.live left.start left.stop right.start
            right.stop = some outer →
          ∃ finished gapStart,
            outcome (finishRight (session.quoteFor left right) right outer) session =
              (.ok (), finished) ∧
            finished.text.locate leftSpan.stop = .ok gapStart ∧
            gapStart.offset = left.stop ∧ left.margin ≤ gapStart.offset ∧
            (1 ≤ gapStart.offset ∨ left.text = [] ∧ left.stop = 0 ∧ left.margin = 0)) ∧
    (∀ a, a = Arithmetic.wrapping ∨ a = Arithmetic.checked →
      (∀ (source : List Char) (calls : List LiveText.Call),
        let t := (LiveText.ofText source).run calls
        t.Short → (∀ offset, t.locateBy? a offset = some (t.locate offset)) ∧
          ∀ c, t.callBy? a c = some (t.call c)) ∧
      ∀ (session : Session) (reduction : Reduction), Reachable session →
        (outcome (consumer reduction) session).2.text.Short →
        tally (consumerBy a reduction) session = some (outcome (consumer reduction) session)) := by
  refine ⟨?_, ?_, ?_⟩
  · intro source calls offset before after edit t inside log
    have traced : t.Traced := (LiveText.traced_ofText source).run calls
    have same : t.source = source := LiveText.source_run _ calls
    rw [← same] at inside ⊢
    exact traced.step log inside
  · intro session leftSpan rightSpan left right reachable read
    obtain ⟨rfl, rfl, found⟩ := readOperands_found read
    refine ⟨closeLiteral_of_empty, found.one_le_stop, ?_⟩
    intro outer enclosed
    obtain ⟨edited, finished, sound, source, kept⟩ := found.finishRight_keeps reachable.sound
      enclosed (session.quoteFor left right)
    obtain ⟨gapStart, located, there⟩ := sound.found (source ▸ found.leftLocated.stopWithin)
    rw [kept] at there
    refine ⟨_, gapStart, finished, located, there, there ▸ found.margin_le_stop, ?_⟩
    rcases Nat.eq_zero_or_pos left.stop with start | later
    · obtain ⟨empty, nothing⟩ := found.empty_of_stop_eq_zero start
      exact .inr ⟨empty, start, nothing⟩
    · exact .inl (there ▸ later)
  · intro a exact
    have exact : a.Exact := by
      rcases exact with rfl | rfl
      · exact Arithmetic.exact_wrapping
      · exact Arithmetic.exact_checked
    refine ⟨?_, ?_⟩
    · intro source calls t short
      have traced := (LiveText.traced_ofText source).run calls
      exact ⟨LiveText.locateBy?_eq exact traced short, LiveText.callBy?_eq exact traced short⟩
    · intro session reduction reachable short
      exact tally_consumerBy exact reachable.traced reachable.sound reduction short

/-- A line feed is put in and two are taken out, and literals in quotes of either style are
joined. -/
theorem counting_never_underflows_across_lines :
    let source := ['a', 'b', '\n', 'c']
    let calls : List LiveText.Call := [.insert 1 ['x', '\n'], .remove 2 5]
    let t := (LiveText.ofText source).run calls
    let edit : Edit := .remove ⟨2, 0, 2⟩ ['\n', 'b', '\n']
    let session := ofText ['\'', 'a', '\'', '+', '"', 'b', '"'] {}
    let left : Operand := ⟨⟨0, 3⟩, 0, 3, ['\'', 'a', '\'']⟩
    let right : Operand := ⟨⟨4, 7⟩, 4, 7, ['"', 'b', '"']⟩
    let joined : Reduction := .concatenate ⟨0, 3⟩ ⟨4, 7⟩
    (4 ≤ source.length ∧ t.log = [.insert ⟨1, 0, 1⟩ ['x', '\n']] ++ edit :: [] ∧ t.Short ∧
      edit.Subtracts ⟨6, 2, 1⟩ ∧ edit.carryWord ⟨6, 2, 1⟩ = ⟨3, 0, 3⟩ ∧
      t.locateBy? .checked 4 = some (.ok ⟨3, 0, 3⟩)) ∧
    (Reachable session ∧
      outcome (readOperands ⟨0, 3⟩ ⟨4, 7⟩) session = (.ok (left, right), session) ∧
      right.text ≠ [] ∧ 1 ≤ right.stop ∧ left.text ≠ [] ∧
      Grouping.enclosing? session.text.live left.start left.stop right.start right.stop =
        some (0, 7) ∧
      ∃ finished gapStart, outcome (finishRight '\'' right (0, 7)) session = (.ok (), finished) ∧
        finished.text.locate 3 = .ok gapStart ∧ gapStart.offset = 3 ∧
        left.margin ≤ gapStart.offset ∧ 1 ≤ gapStart.offset) ∧
    (outcome (consumer joined) session).2.text.Short ∧
      tally (consumerBy .checked joined) session = tally (consumerBy .wrapping joined) session := by
  intro source calls t edit session left right joined
  obtain ⟨steps, operations, same⟩ := counting_never_underflows
  have reachable : Reachable session := .ofText _ _
  have short : t.Short := by decide
  have shortened : (outcome (consumer joined) session).2.text.Short := by decide
  have filled : right.text ≠ [] := by decide
  obtain ⟨subtracts, word⟩ := steps source calls 4 [.insert ⟨1, 0, 1⟩ ['x', '\n']] [] edit
    (by decide) rfl
  obtain ⟨-, stop, gap⟩ := operations session ⟨0, 3⟩ ⟨4, 7⟩ left right reachable rfl
  obtain ⟨finished, gapStart, ran, located, there, margin, behind⟩ := gap (0, 7) rfl
  have filledLeft : left.text ≠ [] := by decide
  obtain ⟨lookups, checked⟩ := same .checked (.inr rfl)
  have wrapped := (same .wrapping (.inl rfl)).2 session joined reachable shortened
  refine ⟨⟨by decide, rfl, short, subtracts, word short, (lookups source calls short).1 4⟩,
    ⟨reachable, rfl, filled, stop filled, filledLeft, rfl, finished, gapStart, ran, located, there,
      margin, behind.resolve_right fun start => filledLeft start.1⟩, shortened, ?_⟩
  rw [checked session joined reachable shortened, wrapped]

/-- An empty left operand at the start of the text. Its end stays there, so a program that takes
differences of positive numbers only does not get beyond the gap. -/
theorem empty_operand_subtracts_from_zero :
    let session := ofText ['+', '1'] {}
    let left : Operand := ⟨⟨0, 0⟩, 0, 0, []⟩
    let right : Operand := ⟨⟨1, 2⟩, 1, 2, ['1']⟩
    let joined : Reduction := .concatenate ⟨0, 0⟩ ⟨1, 2⟩
    Reachable session ∧
    outcome (readOperands ⟨0, 0⟩ ⟨1, 2⟩) session = (.ok (left, right), session) ∧
    Grouping.enclosing? session.text.live left.start left.stop right.start right.stop =
      some (0, 2) ∧
    (∃ finished gapStart,
      outcome (finishRight (session.quoteFor left right) right (0, 2)) session =
        (.ok (), finished) ∧
      finished.text.locate 0 = .ok gapStart ∧ ¬ 1 ≤ gapStart.offset ∧
      tally (locateBy .positive 0) finished = some (.ok gapStart, finished) ∧
      tally (closeGapBy .positive left right) finished = none) ∧
    (∃ final, outcome (consumer joined) session = (.ok (), final) ∧
      final.text.live = ['\'', '1', '\''] ∧
      tally (consumerBy .checked joined) session = some (.ok (), final) ∧
      tally (consumerBy .positive joined) session = none) := by
  intro session left right joined
  let finished := (outcome (finishRight '\'' right (0, 2)) session).2
  let final := (outcome (consumer joined) session).2
  have ran : outcome (finishRight (session.quoteFor left right) right (0, 2)) session =
      (.ok (), finished) := outcome_eq_of_ok (by rfl)
  have located : finished.text.locate 0 = .ok ⟨0, 0, 0⟩ := by rfl
  have accepted : outcome (consumer joined) session = (.ok (), final) := outcome_eq_of_ok (by rfl)
  refine ⟨.ofText _ _, rfl, rfl, ⟨finished, ⟨0, 0, 0⟩, ran, located, by decide, ?_, ?_⟩,
    final, accepted, ?_, ?_, ?_⟩
  all_goals rfl

end Redex.Session
