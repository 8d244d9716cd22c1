import Redex.Proofs.Session.Performing
import Redex.Proofs.Text.Quoting
import Redex.Session.Concatenation

/-! Merging two operands where they stand. The merge is six edits, each of which
rewrites a stretch of its own: what follows the right operand, its closing
quote, its contents, the gap between the contents, what precedes the left
operand, and the opening quote. The stretches are given by the marks and the
contents of the operands, so that no step has to know which of them are quoted. -/
namespace Redex.Session

open Quoted (marks)

variable {session : Session} {before middle rest : List Char}

namespace Operand

/-- What a right operand adds to a literal that stands in `quote`. -/
def appended (quote : Char) (right : Operand) : List Char :=
  match right.quote? with
  | some own => if own = quote then right.contents else Quoted.escape quote right.contents
  | none => right.contents

theorem margin_eq (x : Operand) : x.margin = (marks x.text).length := by
  cases quoted : Quoted.quote? x.text <;> simp [margin, marks, quote?, quoted]

theorem text_eq (x : Operand) : x.text = marks x.text ++ x.contents ++ marks x.text :=
  Quoted.eq_marks_contents x.text

theorem marks_of_some {x : Operand} {quote : Char} (own : x.quote? = some quote) :
    marks x.text = [quote] := by
  rw [marks, show Quoted.quote? x.text = some quote from own]
  rfl

theorem marks_of_none {x : Operand} (bare : x.quote? = none) : marks x.text = [] := by
  rw [marks, show Quoted.quote? x.text = none from bare]
  rfl

theorem opening_append {left : Operand} {quote : Char}
    (own : left.quote? = none ∨ left.quote? = some quote) :
    (if left.quote?.isNone then [quote] else []) ++ marks left.text = [quote] := by
  rcases own with bare | quoted
  · rw [bare, marks_of_none bare]
    rfl
  · rw [quoted, marks_of_some quoted]
    rfl

end Operand

/-- What is between the two contents goes, quotes included. -/
def closeGap (left right : Operand) : Action Unit := do
  let gapStart ← locate left.span.stop
  let gapStop ← locate right.span.start
  remove (gapStart.offset - left.margin) (gapStop.offset + right.margin)

/-- A left operand without quotes gets the one that opens the literal. -/
def openLiteral (quote : Char) (left : Operand) : Action Unit :=
  if left.quote?.isNone then do
    let start ← locate left.span.start
    insert start.offset [quote]
  else pure ()

/-- What is done to the right operand and behind it, where its parentheses go. -/
def finishRight (quote : Char) (right : Operand) (outer : Nat × Nat) : Action Unit := do
  trim right.stop outer.2
  closeLiteral quote right
  escapeQuotes quote right

/-- What is done from the gap on to the left, where the other parentheses go. -/
def joinLeft (quote : Char) (left right : Operand) (outer : Nat × Nat) : Action Unit := do
  closeGap left right
  trim outer.1 left.start
  openLiteral quote left

theorem mergeInPlace_eq (quote : Char) (left right : Operand) (outer : Nat × Nat) :
    mergeInPlace quote left right outer =
      finishRight quote right outer >>= fun _ => joinLeft quote left right outer := by
  by_cases behind : right.stop < outer.2 <;> by_cases ahead : outer.1 < left.start <;>
    simp only [mergeInPlace, finishRight, joinLeft, trim, closeGap, openLiteral,
      behind, ahead, if_true, if_false, bind_assoc, pure_bind]

/-- Replacing the last character of a stretch. -/
theorem replaceLast_performs {front : List Char} {final : Char} {stop : Nat}
    (live : session.text.live = before ++ (front ++ [final]) ++ rest)
    (last : stop = (before ++ (front ++ [final])).length) (text : List Char) :
    ∃ edited, Performs (replaceLive (stop - 1) stop text) session edited before (front ++ [final])
      (front ++ text) rest := by
  rw [← List.append_assoc before] at live last
  have starts : stop - 1 = (before ++ front).length := by
    rw [last, List.length_append, List.length_singleton, Nat.add_sub_cancel]
  obtain ⟨edited, replaced⟩ := replaceLive_performs live starts last text
  exact ⟨edited, replaced.append_front (.inl (List.cons_ne_nil _ _))⟩

theorem closeLiteral_performs (session : Session) {right : Operand}
    (live : session.text.live = before ++ right.text ++ rest)
    (last : right.stop = (before ++ right.text).length) (quote : Char) :
    ∃ edited, Performs (closeLiteral quote right) session edited before right.text
      (marks right.text ++ right.contents ++ [quote]) rest := by
  have text := right.text_eq
  unfold closeLiteral
  split
  · rename_i own quoted
    rw [Operand.marks_of_some quoted] at text ⊢
    by_cases same : own = quote
    · subst same
      rw [if_pos rfl, ← text]
      exact ⟨_, .pure live⟩
    · rw [if_neg same]
      rw [text] at live last ⊢
      exact replaceLast_performs live last [quote]
  · rename_i bare
    rw [Operand.marks_of_none bare, List.nil_append] at text ⊢
    rw [List.append_nil] at text
    rw [← text]
    split
    · rename_i final ends
      obtain ⟨front, whole⟩ := List.getLast?_eq_some_iff.mp ends
      rw [whole] at live last ⊢
      rw [List.append_assoc]
      exact replaceLast_performs live last [final, quote]
    · rename_i empty
      rw [List.getLast?_eq_none_iff.mp empty] at live last ⊢
      exact Performs.insert (by rw [live, List.append_nil]) (by rw [last, List.append_nil]) [quote]

/-- Backslashes put in from right to left at the indices of the bare quotes are those of the
escaped contents. The `closing` quote keeps every insertion ahead of the end of the stretch. -/
theorem insertBackslashes_performs (quote closing : Char) (escaped : Bool)
    (contents : List Char) {before : List Char} {start index : Nat}
    (live : session.text.live = before ++ (contents ++ [closing]) ++ rest)
    (there : start + index = before.length) :
    ∃ edited, Performs ((Quoted.bareFrom quote escaped index contents).reverse.forM fun i =>
        insert (start + i) ['\\']) session edited before (contents ++ [closing])
      (Quoted.escapeFrom quote escaped contents ++ [closing]) rest := by
  induction contents generalizing before escaped index with
  | nil =>
    refine ⟨session.text, ?_⟩
    simpa only [Quoted.bareFrom, Quoted.escapeFrom, List.reverse_nil, List.forM_eq_forM,
      List.forM_nil] using Performs.pure live
  | cons c contents ih =>
    have later (escaped : Bool) : ∃ edited, Performs
        ((Quoted.bareFrom quote escaped (index + 1) contents).reverse.forM fun i =>
          insert (start + i) ['\\']) session edited before (c :: contents ++ [closing])
        (c :: Quoted.escapeFrom quote escaped contents ++ [closing]) rest := by
      have further : session.text.live = before ++ [c] ++ (contents ++ [closing]) ++ rest := by
        simpa only [List.append_assoc, List.cons_append, List.nil_append] using live
      have beyond : start + (index + 1) = (before ++ [c]).length := by
        rw [List.length_append, List.length_singleton, ← there, Nat.add_assoc]
      obtain ⟨edited, performs⟩ := ih escaped further beyond
      exact ⟨edited, performs.append_front (.inl (by simp))⟩
    cases escaped with
    | true => exact later false
    | false =>
      by_cases backslash : c = '\\'
      · simpa only [Quoted.bareFrom, Quoted.escapeFrom, backslash, if_true] using later true
      · by_cases found : c = quote
        · subst found
          obtain ⟨midway, performs⟩ := later false
          have reached : ({ session with text := midway } : Session).text.live =
              before ++ (c :: Quoted.escapeFrom c false contents ++ [closing] ++ rest) := by
            simpa only [List.append_assoc] using performs.rewrites.rewritten
          obtain ⟨edited, inserted⟩ := Performs.insert reached there ['\\']
          have whole := performs.seq inserted.append_back (List.cons_ne_nil _ _)
          refine ⟨edited, ?_⟩
          simpa only [Quoted.bareFrom, Quoted.escapeFrom, backslash, if_false, if_true,
            List.reverse_cons, List.forM_eq_forM, List.forM_append, List.forM_cons,
            List.forM_nil, bind_pure_unit, List.cons_append, List.nil_append] using whole
        · simpa only [Quoted.bareFrom, Quoted.escapeFrom, backslash, found, if_false]
            using later false

theorem escapeQuotes_performs (session : Session) {right : Operand} {quote : Char}
    (live : session.text.live =
      before ++ (marks right.text ++ right.contents ++ [quote]) ++ rest)
    (first : right.start = before.length) :
    ∃ edited, Performs (escapeQuotes quote right) session edited before
      (marks right.text ++ right.contents ++ [quote])
      (marks right.text ++ right.appended quote ++ [quote]) rest := by
  unfold escapeQuotes Operand.appended
  cases quoted : right.quote? with
  | none => exact ⟨_, .pure live⟩
  | some own =>
    by_cases same : own = quote
    · simp only [if_pos same]
      exact ⟨_, .pure live⟩
    · simp only [if_neg same]
      rw [Operand.marks_of_some quoted] at live ⊢
      have inner : session.text.live = before ++ [own] ++ (right.contents ++ [quote]) ++ rest := by
        simpa only [List.append_assoc] using live
      have start : right.start + 1 + 0 = (before ++ [own]).length := by
        rw [first, List.length_append, List.length_singleton]
      obtain ⟨edited, performs⟩ :=
        insertBackslashes_performs quote quote false right.contents inner start
      refine ⟨edited, ?_⟩
      rw [List.append_assoc, List.append_assoc]
      exact performs.append_front (.inl (by simp))

theorem closeGap_performs (session : Session) {left right : Operand} {between : List Char}
    (sound : session.text.Sound)
    (live : session.text.live =
      before ++ (marks left.text ++ between ++ marks right.text) ++ rest)
    (leftWithin : left.span.stop ≤ session.text.source.length)
    (rightWithin : right.span.start ≤ session.text.source.length)
    (first : session.text.place left.span.stop = (before ++ marks left.text).length)
    (last : session.text.place right.span.start =
      (before ++ marks left.text ++ between).length) :
    ∃ edited, Performs (closeGap left right) session edited before
      (marks left.text ++ between ++ marks right.text) [] rest := by
  obtain ⟨gapStart, foundLeft, leftThere, -⟩ := outcome_locate_of_sound sound leftWithin
  obtain ⟨gapStop, foundRight, rightThere, -⟩ := outcome_locate_of_sound sound rightWithin
  have starts : gapStart.offset - left.margin = before.length := by
    rw [leftThere, first, Operand.margin_eq, List.length_append, Nat.add_sub_cancel]
  have stops : gapStop.offset + right.margin =
      (before ++ (marks left.text ++ between ++ marks right.text)).length := by
    rw [rightThere, last, Operand.margin_eq]
    simp only [List.length_append, Nat.add_assoc]
  obtain ⟨edited, removed⟩ := Performs.remove live starts stops
  refine ⟨edited, ?_, removed.rewrites⟩
  rw [closeGap, outcome_bind_of_ok foundLeft, outcome_bind_of_ok foundRight, removed.ran]

theorem openLiteral_performs (session : Session) {left : Operand} (quote : Char)
    (sound : session.text.Sound) (live : session.text.live = before ++ rest)
    (within : left.span.start ≤ session.text.source.length)
    (first : session.text.place left.span.start = before.length) :
    ∃ edited, Performs (openLiteral quote left) session edited before []
      (if left.quote?.isNone then [quote] else []) rest := by
  unfold openLiteral
  refine Performs.ite ?_ ?_ (by rw [live, List.append_nil])
  · intro bare
    obtain ⟨start, found, there, -⟩ := outcome_locate_of_sound sound within
    obtain ⟨edited, inserted⟩ := Performs.insert live (there.trans first) [quote]
    rw [if_pos bare]
    exact ⟨edited, by rw [outcome_bind_of_ok found, inserted.ran], inserted.rewrites⟩
  · intro quoted
    rw [if_neg quoted]

/-- An empty right operand leaves the place of its end before the quote that is put there. -/
theorem finishRight_achieves {right : Operand} {outer : Nat × Nat} {closes : List Char}
    (live : session.text.live = before ++ right.text ++ closes ++ rest)
    (first : right.start = before.length) (last : right.stop = (before ++ right.text).length)
    (outmost : outer.2 = (before ++ right.text ++ closes).length) (quote : Char) :
    ∃ edited, Achieves (finishRight quote right outer) session edited before
        (right.text ++ closes) (marks right.text ++ right.appended quote ++ [quote]) rest ∧
      (right.text ≠ [] → ∀ {offset}, (before ++ right.text).length ≤ session.text.place offset →
        session.text.place offset ≤ (before ++ right.text ++ closes).length →
        edited.place offset =
          (before ++ (marks right.text ++ right.appended quote ++ [quote])).length) := by
  obtain ⟨one, trimmed⟩ := Performs.trim live last outmost
  obtain ⟨two, closed⟩ := closeLiteral_performs { session with text := one }
    (by simpa only [List.append_nil] using trimmed.rewrites.rewritten) last quote
  obtain ⟨three, escaped⟩ := escapeQuotes_performs { session with text := two }
    closed.rewrites.rewritten first
  have wrote := closed.seq escaped (by simp)
  have trim := trimmed.achieves.append_front
  rw [List.append_nil] at trim
  refine ⟨three, trim.seq wrote.achieves, ?_⟩
  intro solid offset late early
  apply wrote.rewrites.atEnd (.inl solid)
  -- Nothing is left of what stood behind the operand, so all places in it are at its end.
  have bounds := trimmed.rewrites.within late early
  rw [List.append_nil] at bounds
  exact Nat.le_antisymm bounds.2 bounds.1

theorem joinLeft_performs (session : Session) {left right : Operand} {quote : Char}
    {outer : Nat × Nat} {opens between tail : List Char} (sound : session.text.Sound)
    (live : session.text.live =
      before ++ (opens ++ left.text ++ between ++ marks right.text ++ tail) ++ rest)
    (startWithin : left.span.start ≤ session.text.source.length)
    (stopWithin : left.span.stop ≤ session.text.source.length)
    (rightWithin : right.span.start ≤ session.text.source.length)
    (leftStart : session.text.place left.span.start = (before ++ opens).length)
    (leftStop : session.text.place left.span.stop = (before ++ opens ++ left.text).length)
    (rightStart : session.text.place right.span.start =
      (before ++ opens ++ left.text ++ between).length)
    (first : outer.1 = before.length) (here : left.start = (before ++ opens).length)
    (own : left.quote? = none ∨ left.quote? = some quote) (solid : tail ≠ []) :
    ∃ edited, Performs (joinLeft quote left right outer) session edited before
        (opens ++ left.text ++ between ++ marks right.text ++ tail)
        (quote :: left.contents ++ tail) rest ∧
      edited.place left.span.start = before.length := by
  have text := left.text_eq
  have length := congrArg List.length text
  have split : opens ++ left.text ++ between ++ marks right.text ++ tail =
      opens ++ marks left.text ++ left.contents ++
        (marks left.text ++ between ++ marks right.text) ++ tail :=
    (congrArg (opens ++ · ++ between ++ marks right.text ++ tail) text).trans
      (by simp only [List.append_assoc])
  rw [split] at live ⊢
  have apart : session.text.live = before ++ (opens ++ marks left.text ++ left.contents) ++
      (marks left.text ++ between ++ marks right.text) ++ (tail ++ rest) := by
    rw [live]
    simp only [List.append_assoc]
  obtain ⟨one, joined⟩ := closeGap_performs session sound apart stopWithin rightWithin
    (by rw [leftStop]; simp only [List.length_append] at length ⊢; omega)
    (by rw [rightStart]; simp only [List.length_append] at length ⊢; omega)
  have start₁ : one.place left.span.start = (before ++ opens).length :=
    (joined.rewrites.ahead (by rw [leftStart]; simp only [List.length_append]; omega)).trans
      leftStart
  have live₁ : one.live =
      before ++ opens ++ (marks left.text ++ left.contents ++ tail ++ rest) := by
    rw [joined.rewrites.rewritten]
    simp only [List.append_assoc, List.nil_append]
  obtain ⟨two, trimmed⟩ : ∃ two, Performs (trim outer.1 left.start)
      { session with text := one } two before opens []
      (marks left.text ++ left.contents ++ tail ++ rest) := Performs.trim live₁ first here
  have start₂ : two.place left.span.start = before.length := by
    rw [trimmed.rewrites.atEnd (.inr rfl) start₁, List.append_nil]
  have source₂ : two.source = session.text.source :=
    trimmed.rewrites.source.trans joined.rewrites.source
  have live₂ : two.live = before ++ (marks left.text ++ left.contents ++ tail ++ rest) := by
    rw [trimmed.rewrites.rewritten, List.append_nil]
  obtain ⟨three, opened⟩ := openLiteral_performs { session with text := two } quote
    (trimmed.rewrites.sound (joined.rewrites.sound sound)) live₂
    (by rw [source₂]; exact startWithin) start₂
  have join := joined.widen (.inr (.inr rfl))
  have remains : opens ++ marks left.text ++ left.contents ++ [] ++ tail =
      opens ++ (marks left.text ++ left.contents ++ tail) := by
    simp only [List.append_assoc, List.append_nil]
  have literal : (if left.quote?.isNone then [quote] else []) ++
      (marks left.text ++ left.contents ++ tail) = quote :: left.contents ++ tail := by
    rw [← List.append_assoc, ← List.append_assoc, Operand.opening_append own]
    rfl
  rw [remains] at join
  have open₃ := opened.append_back
  rw [literal] at open₃
  have some (front : List Char) : front ++ tail ≠ [] := List.append_ne_nil_of_right_ne_nil _ solid
  refine ⟨three, ?_, (opened.rewrites.ahead (Nat.le_of_eq start₂)).trans start₂⟩
  refine join.seq (trimmed.append_back.seq open₃ (some _)) ?_
  rw [← List.append_assoc]
  exact some _

/-- Two operands that are found in a text where their spans are, with what is around and
between them. -/
structure Operand.Stand (t : LiveText) (left right : Operand)
    (before opens between closes rest : List Char) : Prop where
  live : t.live = before ++ opens ++ left.text ++ between ++ right.text ++ closes ++ rest
  leftStart : t.place left.span.start = (before ++ opens).length
  leftStop : t.place left.span.stop = (before ++ opens ++ left.text).length
  rightStart : t.place right.span.start = (before ++ opens ++ left.text ++ between).length
  rightStop : t.place right.span.stop =
    (before ++ opens ++ left.text ++ between ++ right.text).length
  leftWithin : left.span.start ≤ left.span.stop ∧ left.span.stop ≤ t.source.length
  rightWithin : right.span.start ≤ right.span.stop ∧ right.span.stop ≤ t.source.length
  leftHere : left.start = t.place left.span.start ∧ left.stop = t.place left.span.stop
  rightHere : right.start = t.place right.span.start ∧ right.stop = t.place right.span.stop

/-- An operand stands where its span is found. -/
structure Operand.Located (t : LiveText) (x : Operand) : Prop where
  startWithin : x.span.start ≤ t.source.length
  stopWithin : x.span.stop ≤ t.source.length
  start_eq : x.start = t.place x.span.start
  stop_eq : x.stop = t.place x.span.stop

/-- Two operands that stand in a text one after the other, with what is around and between them. -/
structure Operand.Apart (text : List Char) (left right : Operand)
    (before opens between closes rest : List Char) : Prop where
  text_eq : text = before ++ opens ++ left.text ++ between ++ right.text ++ closes ++ rest
  leftStart : left.start = (before ++ opens).length
  leftStop : left.stop = (before ++ opens ++ left.text).length
  rightStart : right.start = (before ++ opens ++ left.text ++ between).length
  rightStop : right.stop = (before ++ opens ++ left.text ++ between ++ right.text).length

namespace Operand.Stand

variable {t : LiveText} {left right : Operand} {opens between closes : List Char}

theorem apart (stand : Stand t left right before opens between closes rest) :
    Apart t.live left right before opens between closes rest where
  text_eq := stand.live
  leftStart := stand.leftHere.1.trans stand.leftStart
  leftStop := stand.leftHere.2.trans stand.leftStop
  rightStart := stand.rightHere.1.trans stand.rightStart
  rightStop := stand.rightHere.2.trans stand.rightStop

end Operand.Stand

/-- The literal that two operands are merged into. -/
def Operand.merged (quote : Char) (left right : Operand) : List Char :=
  quote :: left.contents ++ right.appended quote ++ [quote]

/-- Operands that stand apart are merged, whatever they hold and whatever is between them. The
outer ends of the operands are those of the merged literal, unless the right one is empty. -/
theorem mergeInPlace_achieves (outer : Nat × Nat) {left right : Operand} {quote : Char}
    {before opens between closes rest : List Char} (sound : session.text.Sound)
    (leftFound : left.Located session.text) (rightFound : right.Located session.text)
    (apart : Operand.Apart session.text.live left right before opens between closes rest)
    (own : left.quote? = none ∨ left.quote? = some quote) (first : outer.1 = before.length)
    (last : outer.2 =
      (before ++ opens ++ left.text ++ between ++ right.text ++ closes).length) :
    ∃ edited, Achieves (mergeInPlace quote left right outer) session edited before
        (opens ++ left.text ++ between ++ right.text ++ closes)
        (Operand.merged quote left right) rest ∧
      edited.place left.span.start = before.length ∧
      (right.text ≠ [] → ∀ {offset}, right.stop ≤ session.text.place offset →
        session.text.place offset ≤ outer.2 →
        edited.place offset = (before ++ Operand.merged quote left right).length) := by
  obtain ⟨one, finished, atStop⟩ := finishRight_achieves apart.text_eq apart.rightStart
    apart.rightStop last quote
  have unmoved {offset : Nat} (early : session.text.place offset ≤
      (before ++ opens ++ left.text ++ between).length) :
      one.place offset = session.text.place offset := finished.changes.ahead early
  have source := finished.changes.source
  have leftStart := leftFound.start_eq.symm.trans apart.leftStart
  have leftStop := leftFound.stop_eq.symm.trans apart.leftStop
  have rightStart := rightFound.start_eq.symm.trans apart.rightStart
  have live₁ : one.live = before ++ (opens ++ left.text ++ between ++ marks right.text ++
      (right.appended quote ++ [quote])) ++ rest := by
    rw [finished.changes.rewritten]
    simp only [List.append_assoc]
  obtain ⟨two, joined, atStart⟩ := joinLeft_performs { session with text := one }
    (finished.changes.sound sound) live₁ (by rw [source]; exact leftFound.startWithin)
    (by rw [source]; exact leftFound.stopWithin) (by rw [source]; exact rightFound.startWithin)
    ((unmoved (by rw [leftStart]; simp only [List.length_append]; omega)).trans leftStart)
    ((unmoved (by rw [leftStop]; simp only [List.length_append]; omega)).trans leftStop)
    ((unmoved (Nat.le_of_eq rightStart)).trans rightStart) first apart.leftStart own (by simp)
  have around : before ++ opens ++ left.text ++ between =
      before ++ (opens ++ left.text ++ between) := by
    simp only [List.append_assoc]
  have merged : quote :: left.contents ++ (right.appended quote ++ [quote]) =
      Operand.merged quote left right := by
    rw [Operand.merged, List.append_assoc]
  rw [around] at finished
  rw [merged] at joined
  refine ⟨two, ?_, atStart, ?_⟩
  · rw [mergeInPlace_eq]
    apply Achieves.seq _ joined.achieves
    simpa only [List.append_assoc] using finished.append_front
  · intro solid offset late early
    rw [apart.rightStop] at late
    rw [last] at early
    apply joined.rewrites.atEnd (.inl (by simp))
    rw [atStop solid late early]
    simp only [List.length_append]
    omega

end Redex.Session
