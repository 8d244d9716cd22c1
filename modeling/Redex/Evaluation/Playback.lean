import Redex.Evaluation.Evaluator

/-! An evaluation that is driven from outside, one step at a time. The evaluation
waits at each step until it is acknowledged, so at most one step is under way. A
step that is dropped instead, or one that nobody waits for any more, ends the
evaluation as disconnected. -/
namespace Redex

structure Playback where
  /-- The steps that were not delivered yet. -/
  upcoming : List Step
  /-- The delivered step that is neither acknowledged nor dropped. -/
  pending : Option Step
  /-- Whether a step was dropped, after which none is delivered. -/
  abandoned : Bool
  /-- The result once every step is acknowledged. -/
  result : Except Failure Completion

namespace Playback

def start (tree : Tree) : Playback :=
  let (result, steps) := tree.record
  ⟨steps, none, false, result⟩

/-- Delivers the next step, which becomes the pending one. There is none while a
step is pending and after the end. -/
def next (p : Playback) : Option Step × Playback :=
  if p.pending.isSome || p.abandoned then (none, p)
  else match p.upcoming with
    | [] => (none, p)
    | step :: rest => (some step, { p with upcoming := rest, pending := some step })

/-- Lets the evaluation go on past the pending step. -/
def acknowledge (p : Playback) : Playback := { p with pending := none }

/-- Gives the pending step up. -/
def drop (p : Playback) : Playback :=
  { p with pending := none, abandoned := p.abandoned || p.pending.isSome }

/-- Takes no more steps. The result is there only if none was left. -/
def finish (p : Playback) : Except Failure Completion :=
  if p.abandoned || p.pending.isSome || !p.upcoming.isEmpty then .error (.refused .disconnected)
  else p.result

end Playback
end Redex
