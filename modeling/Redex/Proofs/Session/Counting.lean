import Redex.Proofs.Session.Performing
import Redex.Proofs.Session.Reading
import Redex.Proofs.Text.Words

/-! Operations on a session by some arithmetic. Each sum and each difference of
offsets is taken where it is needed, in the order of the edits, and may stop the
program. Walks over a text that is at hand, such as the one that finds the
parentheses around two operands, count no further than its length and are taken as
they are. Lookups and single edits of short texts are the same by every arithmetic
that is exact on words. -/
namespace Redex.Session

variable {α β : Type} {a : Arithmetic} {session left : Session}

/-- Something done to a session, unless counting stops the program. -/
abbrev Counted (α : Type) := ExceptT Refusal (StateT Session Option) α

/-- What a counted action comes to together with the session it leaves. -/
def tally (counted : Counted α) (session : Session) : Option (Except Refusal α × Session) :=
  counted.run.run session

/-- An action that counts nothing. -/
def ofAction (action : Action α) : Counted α :=
  ExceptT.mk fun session => some (outcome action session)

def count (n : Option Nat) : Counted Nat :=
  ExceptT.mk fun session => n.map fun n => (.ok n, session)

def ofCount (result : Option (Except LiveText.Error α)) : Counted α :=
  ExceptT.mk fun session => result.map fun result => (result.mapError .edit, session)

/-! Each action of a session, and each part of one, that asks for an offset. -/

section
variable (a : Arithmetic)

def locateBy (offset : Nat) : Counted Position := do
  ofCount ((← get).text.locateBy? a offset)

def insertBy (offset : Nat) (text : List Char) : Counted Unit := do
  let session ← get
  let text ← ofCount (session.text.insertBy? a offset text)
  set { session with text }

def removeBy (start stop : Nat) : Counted Unit := do
  let session ← get
  let text ← ofCount (session.text.removeBy? a start stop)
  set { session with text }

def replaceLiveBy (start stop : Nat) (text : List Char) : Counted Unit := do
  if text ≠ [] then insertBy a start text
  if start < stop then
    removeBy a (← count (a.add? start text.length)) (← count (a.add? stop text.length))

def replaceRangeBy (range : Span) (text : List Char) : Counted Unit := do
  let start ← locateBy a range.start
  let stop ← locateBy a range.stop
  ofAction (checkLines start stop)
  replaceLiveBy a start.offset stop.offset text
  ofAction addFrame

def trimBy (start stop : Nat) : Counted Unit :=
  if start < stop then removeBy a start stop else pure ()

def closeLiteralBy (quote : Char) (right : Operand) : Counted Unit :=
  match right.quote? with
  | some own =>
    if own = quote then pure ()
    else do replaceLiveBy a (← count (a.sub? right.stop 1)) right.stop [quote]
  | none =>
    match right.text.getLast? with
    | some last => do replaceLiveBy a (← count (a.sub? right.stop 1)) right.stop [last, quote]
    | none => insertBy a right.stop [quote]

def escapeQuotesBy (quote : Char) (right : Operand) : Counted Unit :=
  match right.quote? with
  | some own =>
    if own = quote then pure ()
    else (Quoted.bare quote right.contents).reverse.forM fun index => do
      let contents ← count (a.add? right.start 1)
      insertBy a (← count (a.add? contents index)) ['\\']
  | none => pure ()

def finishRightBy (quote : Char) (right : Operand) (outer : Nat × Nat) : Counted Unit := do
  trimBy a right.stop outer.2
  closeLiteralBy a quote right
  escapeQuotesBy a quote right

def closeGapBy (left right : Operand) : Counted Unit := do
  let stop ← locateBy a left.span.stop
  let gapStart ← count (a.sub? stop.offset left.margin)
  let start ← locateBy a right.span.start
  let gapStop ← count (a.add? start.offset right.margin)
  removeBy a gapStart gapStop

def openLiteralBy (quote : Char) (left : Operand) : Counted Unit :=
  if left.quote?.isNone then do
    let start ← locateBy a left.span.start
    insertBy a start.offset [quote]
  else pure ()

def joinLeftBy (quote : Char) (left right : Operand) (outer : Nat × Nat) : Counted Unit := do
  closeGapBy a left right
  trimBy a outer.1 left.start
  openLiteralBy a quote left

def mergeInPlaceBy (quote : Char) (left right : Operand) (outer : Nat × Nat) : Counted Unit := do
  finishRightBy a quote right outer
  joinLeftBy a quote left right outer

def readOperandsBy (left right : Span) : Counted (Operand × Operand) := do
  let leftStart ← locateBy a left.start
  let leftStop ← locateBy a left.stop
  let rightStart ← locateBy a right.start
  let rightStop ← locateBy a right.stop
  ofAction (checkLines leftStart rightStop)
  let leftText ← ofAction (slice leftStart.offset leftStop.offset)
  let rightText ← ofAction (slice rightStart.offset rightStop.offset)
  return (⟨left, leftStart.offset, leftStop.offset, leftText⟩,
    ⟨right, rightStart.offset, rightStop.offset, rightText⟩)

def mergeOperandsBy (left right : Operand) : Counted Unit := do
  let session ← get
  let quote := session.quoteFor left right
  match Grouping.enclosing? session.text.live left.start left.stop right.start right.stop with
  | none => replaceLiveBy a left.start right.stop (mergedLiteral quote left right)
  | some outer => mergeInPlaceBy a quote left right outer
  ofAction addFrame

/-- `consumer`, by some arithmetic. -/
def consumerBy : Reduction → Counted Unit
  | .replace range text => replaceRangeBy a range text.toList
  | .concatenate left right => do
    let (left, right) ← readOperandsBy a left right
    mergeOperandsBy a left right

end

/-! What counted actions come to, in terms of the actions they count for. -/

theorem tally_get (session : Session) :
    tally (get : Counted Session) session = some (.ok session, session) := rfl

theorem tally_bind_of_ok {first : Counted α} {next : α → Counted β} {x : α}
    (ran : tally first session = some (.ok x, left)) :
    tally (first >>= next) session = tally (next x) left := by
  simp only [tally, ExceptT.run_bind, StateT.run_bind] at ran ⊢
  rw [ran]
  rfl

theorem tally_bind_of_error {first : Counted α} {next : α → Counted β} {e : Refusal}
    (stopped : tally first session = some (.error e, left)) :
    tally (first >>= next) session = some (.error e, left) := by
  simp only [tally, ExceptT.run_bind, StateT.run_bind] at stopped ⊢
  rw [stopped]
  rfl

/-- Where the first part only reads, and is counted as it is, the rest is counted from there. -/
theorem tally_bind_of_reads {counted : Counted α} {action : Action α} {further : α → Counted β}
    {next : α → Action β} (same : tally counted session = some (outcome action session))
    (reads : Reads action)
    (rest : ∀ x, outcome action session = (.ok x, session) →
      tally (further x) session = some (outcome (next x) session)) :
    tally (counted >>= further) session = some (outcome (action >>= next) session) := by
  obtain ⟨refusal, refused⟩ | ⟨x, made⟩ := reads.cases session
  · rw [refused] at same
    rw [tally_bind_of_error same, outcome_bind_of_error refused]
  · rw [made] at same
    rw [tally_bind_of_ok same, outcome_bind_of_ok made]
    exact rest x made

section
variable (exact : a.Exact) (traced : session.text.Traced) (short : session.text.Short)
include exact traced short

theorem tally_locateBy (offset : Nat) :
    tally (locateBy a offset) session = some (outcome (locate offset) session) := by
  show tally (ofCount (session.text.locateBy? a offset)) session = _
  rw [LiveText.locateBy?_eq exact traced short]
  rfl

theorem tally_insertBy (offset : Nat) (text : List Char) :
    tally (insertBy a offset text) session = some (outcome (insert offset text) session) := by
  have made : session.text.insertBy? a offset text = some (session.text.insert offset text) :=
    LiveText.callBy?_eq exact traced short (.insert offset text)
  show tally (ofCount (session.text.insertBy? a offset text) >>= fun text =>
    set { session with text }) session = _
  rw [made, outcome_insert]
  cases session.text.insert offset text <;> rfl

theorem tally_removeBy (start stop : Nat) :
    tally (removeBy a start stop) session = some (outcome (remove start stop) session) := by
  have made : session.text.removeBy? a start stop = some (session.text.remove start stop) :=
    LiveText.callBy?_eq exact traced short (.remove start stop)
  show tally (ofCount (session.text.removeBy? a start stop) >>= fun text =>
    set { session with text }) session = _
  rw [made, outcome_remove]
  cases session.text.remove start stop <;> rfl

theorem tally_readOperandsBy (left right : Span) :
    tally (readOperandsBy a left right) session =
      some (outcome (readOperands left right) session) := by
  have locates := tally_locateBy exact traced short
  refine tally_bind_of_reads (locates _) (.locate _) fun leftStart _ => ?_
  refine tally_bind_of_reads (locates _) (.locate _) fun leftStop _ => ?_
  refine tally_bind_of_reads (locates _) (.locate _) fun rightStart _ => ?_
  refine tally_bind_of_reads (locates _) (.locate _) fun rightStop _ => ?_
  refine tally_bind_of_reads rfl (.checkLines _ _) fun _ _ => ?_
  refine tally_bind_of_reads rfl (.slice _ _) fun leftText _ => ?_
  exact tally_bind_of_reads rfl (.slice _ _) fun rightText _ => rfl

end

end Redex.Session
