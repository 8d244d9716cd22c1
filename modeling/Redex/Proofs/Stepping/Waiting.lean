import Redex.Proofs.Stepping.Accounts

/-! Calls that wait come to an end. While the client waits the thread can move
until there is a step or a result for it, and each move of the thread brings it
nearer to its end. So the call returns in every interleaving. -/
namespace Redex

open List (replicate)

/-- A client in a call that waits. -/
def Client.Waits : Client → Prop
  | .asking | .finishing => True
  | _ => False

theorem Client.Waits.cases {client : Client} (waits : client.Waits) :
    client = .asking ∨ client = .finishing := by
  cases client with
  | asking => exact .inl rfl
  | finishing => exact .inr rfl
  | idle | returned => contradiction

/-- The client once such a call has returned. -/
def Client.after (result : Except Failure Completion) : Client → Client
  | .asking => .idle
  | .finishing => .returned result
  | other => other

namespace Exchange

/-- Whatever moves are made, the goal is reached. -/
inductive Inevitable (tree : Tree) (goal : Exchange → Prop) : Exchange → Prop where
  | reached {s : Exchange} (done : goal s) : Inevitable tree goal s
  | later {s : Exchange} (moves : ∃ event t, Next tree s event t)
      (all : ∀ event t, Next tree s event t → Inevitable tree goal t) : Inevitable tree goal s

/-- A bound on the moves that the thread still makes. -/
def remaining (tree : Tree) (s : Exchange) : Nat :=
  match s.thread with
  | .running answers => 2 * (tree.record.2.length + 1 - answers.length) + 2
  | .waiting answers _ => 2 * (tree.record.2.length + 1 - answers.length) + 1
  | .ended _ => 0

variable {tree : Tree} {s t : Exchange} {tally after : Tally} {event : Event}

theorem remaining_of_running {answers : List Bool} (running : s.thread = .running answers) :
    s.remaining tree = 2 * (tree.record.2.length + 1 - answers.length) + 2 := by
  rw [remaining, running]

theorem remaining_of_waiting {answers : List Bool} {ack : Nat}
    (waiting : s.thread = .waiting answers ack) :
    s.remaining tree = 2 * (tree.record.2.length + 1 - answers.length) + 1 := by
  rw [remaining, waiting]

namespace Tallies

/-- While the client waits, either its call returns or the thread gets on. -/
theorem wait (tallies : Tallies tree s tally) (waits : s.client.Waits)
    (move : Next tree s event t) :
    t.client = s.client.after (tree.resultAfter tally.acknowledged) ∨
      t.client = s.client ∧ Event.acknowledgedSteps [event] = [] ∧
        t.remaining tree < s.remaining tree := by
  have phase := tallies.phase
  cases move with
  | send running next =>
    obtain ⟨k, -, rfl, recorded, -, -⟩ := phase.of_step running next
    refine .inr ⟨rfl, rfl, ?_⟩
    rw [remaining_of_running running, remaining_of_waiting rfl]
    omega
  | unsent running next =>
    obtain ⟨k, -, rfl, recorded, -, -⟩ := phase.of_step running next
    have early := (List.getElem?_eq_some_iff.mp recorded).1
    refine .inr ⟨rfl, rfl, ?_⟩
    rw [remaining_of_running running, remaining_of_running rfl, List.length_append,
      List.length_replicate, List.length_singleton]
    omega
  | resume waiting found answer =>
    obtain ⟨k, -, rfl, within, -, -⟩ := phase.of_answer waiting found answer
    refine .inr ⟨rfl, rfl, ?_⟩
    rw [remaining_of_waiting waiting, remaining_of_running rfl, List.length_append,
      List.length_replicate, List.length_singleton]
    omega
  | hangUp waiting found silent alone =>
    obtain ⟨stopped, rfl⟩ := phase.of_silence waiting found silent alone
    have early := stopped.early
    refine .inr ⟨rfl, rfl, ?_⟩
    rw [remaining_of_waiting waiting, remaining_of_running rfl, List.length_append,
      List.length_replicate, List.length_singleton]
    omega
  | stop running =>
    refine .inr ⟨rfl, rfl, ?_⟩
    rw [remaining_of_running running]
    exact Nat.succ_pos _
  | deliver ready queued =>
    rcases ready with asking | idle
    · exact .inl (by rw [asking]; rfl)
    · rw [idle] at waits
      contradiction
  | exhaust asking => exact .inl (by rw [asking]; rfl)
  | join finishing ended =>
    obtain ⟨rfl, -, -⟩ := phase.of_ended ended
    exact .inl (by rw [finishing]; rfl)
  | ask idle | miss idle | acknowledge idle | drop idle | finish idle =>
    rw [idle] at waits
    contradiction

/-- Once the thread has ended, the call that waits returns. -/
theorem moves_of_ended (tallies : Tallies tree s tally) (waits : s.client.Waits)
    {result : Except Failure Completion} (ended : s.thread = .ended result)
    (queue : s.steps.queue = []) : ∃ event t, Next tree s event t := by
  have alone := tallies.sender
  rw [ended] at alone
  rcases waits.cases with asking | finishing
  · exact ⟨_, _, .exhaust asking queue alone⟩
  · exact ⟨_, _, .join finishing ended⟩

/-- Nobody is stuck while the client waits. -/
theorem moves (tallies : Tallies tree s tally) (waits : s.client.Waits) :
    ∃ event t, Next tree s event t := by
  have client := tallies.client
  cases tallies.phase with
  | computing within thread =>
    rcases Nat.lt_or_eq_of_le within with early | rfl
    · have next := Tree.resume_of_getElem (List.getElem?_eq_getElem early)
      cases receiver : s.steps.receiver with
      | true => exact ⟨_, _, .send thread next receiver⟩
      | false => exact ⟨_, _, .unsent thread next receiver⟩
    · exact ⟨_, _, .stop thread (Tree.resume_of_length tree)⟩
  | queued _ _ _ queue _ receiver =>
    rcases waits.cases with asking | finishing
    · exact ⟨_, _, .deliver (.inl asking) queue⟩
    · rw [finishing] at client
      cases receiver.symm.trans client
  | taken _ _ _ _ pending receiver =>
    -- A client that holds a step is in neither call, or it would wait for ever.
    rcases waits.cases with asking | finishing
    · rw [asking] at client
      cases client.2.symm.trans pending
    · rw [finishing] at client
      cases receiver.symm.trans client
  | answered _ thread found answer => exact ⟨_, _, .resume thread found answer⟩
  | completed _ thread queue => exact tallies.moves_of_ended waits thread queue
  | lost _ thread found silent alone => exact ⟨_, _, .hangUp thread found silent alone⟩
  | refused stopped thread => exact ⟨_, _, .stop thread (resume_of_early stopped.early)⟩
  | failed stopped thread => exact tallies.moves_of_ended waits thread stopped.queue

theorem acknowledged_eq (move : Tally.Next tree tally event after)
    (other : Event.acknowledgedSteps [event] = []) : after.acknowledged = tally.acknowledged := by
  cases move with
  | acknowledge => contradiction
  | send | deliver | drop | exhaust | settle | silent => rfl

/-- A call that waits returns, and waiting for the result gives what was acknowledged by then. -/
theorem returns (tallies : Tallies tree s tally) (waits : s.client.Waits) :
    Inevitable tree
      (fun t => t.client = s.client.after (tree.resultAfter tally.acknowledged)) s := by
  -- On the moves that the thread still makes; the client itself moves only to return.
  induction bound : s.remaining tree using Nat.strongRecOn generalizing s tally with
  | _ bound' ih =>
    subst bound
    apply Inevitable.later (tallies.moves waits)
    intro event t move
    obtain returned | ⟨client, other, nearer⟩ := tallies.wait waits move
    · exact .reached returned
    · obtain ⟨after, counted, tallies'⟩ := tallies.next move
      have later := ih _ nearer tallies' (client ▸ waits) rfl
      rwa [client, acknowledged_eq counted other] at later

end Tallies

end Exchange
end Redex
