import Redex.Proofs.Evaluation.Delivery
import Redex.Proofs.Session.Calls

/-! The sessions that come about. Each starts from a source, and operations are
applied to it, whether they are accepted or refused; an evaluation applies the
operations of its steps. In all of them lookups are scans of the live text. -/
namespace Redex.Session

/-- What some operations make of a new session. -/
inductive Reachable : Session → Prop where
  | ofText (source : List Char) (options : Options) : Reachable (ofText source options)
  | apply {session : Session} (earlier : Reachable session) (reduction : Reduction) :
      Reachable (outcome (consumer reduction) session).2

namespace Reachable

variable {session : Session}

theorem deliver (reachable : Reachable session) (reductions : List Reduction) :
    Reachable (outcome (consumer.deliver reductions) session).2 := by
  induction reductions generalizing session with
  | nil => exact reachable
  | cons reduction rest ih =>
    have next := reachable.apply reduction
    rw [Consumer.deliver_cons, outcome_bind]
    cases handed : outcome (consumer reduction) session with
    | mk result left =>
      rw [handed] at next
      cases result with
      | error refusal => exact next
      | ok => exact ih next

/-- An evaluation leads to nothing that its operations do not lead to. -/
theorem evaluate (reachable : Reachable session) (tree : Tree) :
    Reachable ((Session.evaluate tree).run session).2 := by
  have delivered := reachable.deliver (tree.record.2.map (·.reduction))
  show Reachable ((tree.evaluate consumer).run session).2
  rw [(Tree.evaluate_eq_deliver tree).2]
  cases handed : outcome (consumer.deliver (tree.record.2.map (·.reduction))) session with
  | mk result left =>
    rw [handed] at delivered
    cases result <;> exact delivered

theorem sound (reachable : Reachable session) : session.text.Sound := by
  induction reachable with
  | ofText source options => exact LiveText.sound_ofText source
  | @apply session _ reduction ih =>
    obtain ⟨⟨calls, edited⟩, -⟩ := EditsByCalls.consumer reduction session
    rw [edited]
    exact ih.run calls

end Reachable
end Redex.Session
