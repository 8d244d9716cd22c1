import Redex.Proofs.Evaluation.Resumption
import Redex.Evaluation.Playback

/-! An evaluation in a thread of its own, driven by a client. The thread sends each
step over a channel, together with the sender of a new channel for its
acknowledgement, and waits there. The client takes steps, acknowledges or drops
them, and at last closes the channel and waits for the result. Either side moves
whenever it can, so the runs are all the interleavings of the two. -/
namespace Redex

/-- A channel of messages, and whether somebody holds its sender and its receiver. -/
structure Channel (α : Type) where
  queue : List α
  sender : Bool
  receiver : Bool

namespace Channel

variable {α : Type}

def opened : Channel α := ⟨[], true, true⟩

/-- A message that is sent to a receiver that is gone is lost. -/
def send (c : Channel α) (message : α) : Channel α :=
  if c.receiver then { c with queue := c.queue ++ [message] } else c

def hangUp (c : Channel α) : Channel α := { c with sender := false }

/-- What is in the queue goes with the receiver. -/
def close (c : Channel α) : Channel α := { c with queue := [], receiver := false }

@[simp] theorem sender_send (c : Channel α) (message : α) : (c.send message).sender = c.sender := by
  unfold send
  split <;> rfl

@[simp] theorem receiver_send (c : Channel α) (message : α) :
    (c.send message).receiver = c.receiver := by
  unfold send
  split <;> rfl

theorem queue_send {c : Channel α} (open_ : c.receiver = true) (message : α) :
    (c.send message).queue = c.queue ++ [message] := by
  rw [send, if_pos open_]

end Channel

/-- A step on its way to the client, with the number of the channel that waits for its
acknowledgement. Whoever holds it holds the sender of that channel. -/
structure Message where
  step : Step
  ack : Nat

inductive Thread where
  /-- It goes on from these answers to its first steps. -/
  | running (answers : List Bool)
  /-- It waits for an acknowledgement on this channel. -/
  | waiting (answers : List Bool) (ack : Nat)
  | ended (result : Except Failure Completion)

def Thread.isBusy : Thread → Bool
  | .ended _ => false
  | _ => true

inductive Client where
  /-- It may make any call. -/
  | idle
  /-- It waits for a step. -/
  | asking
  /-- It waits for the result. -/
  | finishing
  | returned (result : Except Failure Completion)

/-- Both sides and what is between them. -/
structure Exchange where
  steps : Channel Message
  /-- The channels for acknowledgements, in the order in which they were made. -/
  acks : List (Channel Unit)
  thread : Thread
  client : Client
  /-- The steps that the client has taken, and neither acknowledged nor dropped. -/
  pending : List Message

inductive Event where
  | sent (step : Step)
  | unsent
  | resumed
  | hungUp
  | ended
  | asked
  | delivered (step : Step)
  | exhausted
  | unavailable
  | acknowledged (step : Step)
  | dropped (step : Step)
  | finishing
  | returned (result : Except Failure Completion)

namespace Exchange

def start : Exchange := ⟨.opened, [], .running [], .idle, []⟩

/-- The acknowledgement channels once the receiver of the steps is gone: nobody is left to
acknowledge what was in the queue. -/
def abandon (queue : List Message) (acks : List (Channel Unit)) : List (Channel Unit) :=
  queue.foldl (fun acks message => acks.modify message.ack .hangUp) acks

variable (tree : Tree)

/-- One move of either side. -/
inductive Next : Exchange → Event → Exchange → Prop where
  /-- The evaluation comes to a step. -/
  | send {s : Exchange} {answers : List Bool} {step : Step}
      (running : s.thread = .running answers) (next : tree.resume answers = .inl step)
      (open_ : s.steps.receiver = true) :
      Next s (.sent step) { s with
        steps := s.steps.send ⟨step, s.acks.length⟩
        acks := s.acks ++ [.opened]
        thread := .waiting answers s.acks.length }
  /-- The receiver of the steps is gone, so the step is refused. -/
  | unsent {s : Exchange} {answers : List Bool} {step : Step}
      (running : s.thread = .running answers) (next : tree.resume answers = .inl step)
      (closed : s.steps.receiver = false) :
      Next s .unsent { s with thread := .running (answers ++ [false]) }
  | resume {s : Exchange} {answers : List Bool} {ack : Nat} {channel : Channel Unit}
      {rest : List Unit} (waiting : s.thread = .waiting answers ack)
      (found : s.acks[ack]? = some channel) (answered : channel.queue = () :: rest) :
      Next s .resumed { s with
        acks := s.acks.set ack channel.close
        thread := .running (answers ++ [true]) }
  /-- Nobody is left to acknowledge the step, so it is refused. -/
  | hangUp {s : Exchange} {answers : List Bool} {ack : Nat} {channel : Channel Unit}
      (waiting : s.thread = .waiting answers ack) (found : s.acks[ack]? = some channel)
      (silent : channel.queue = []) (alone : channel.sender = false) :
      Next s .hungUp { s with
        acks := s.acks.set ack channel.close
        thread := .running (answers ++ [false]) }
  /-- The evaluation is over, and the sender of the steps goes with it. -/
  | stop {s : Exchange} {answers : List Bool} {result : Except Failure Completion}
      (running : s.thread = .running answers) (finished : tree.resume answers = .inr result) :
      Next s .ended { s with
        steps := s.steps.hangUp
        thread := .ended result }
  /-- The client asks for a step to wait for, which it does not do while it holds one. -/
  | ask {s : Exchange} (idle : s.client = .idle) (free : s.pending = []) :
      Next s .asked { s with client := .asking }
  /-- The client takes a step, having waited for it or having tried whether there is one. -/
  | deliver {s : Exchange} {message : Message} {rest : List Message}
      (ready : s.client = .asking ∨ s.client = .idle) (queued : s.steps.queue = message :: rest) :
      Next s (.delivered message.step) { s with
        steps := { s.steps with queue := rest }
        client := .idle
        pending := s.pending ++ [message] }
  /-- There is no step to wait for any more. -/
  | exhaust {s : Exchange} (asking : s.client = .asking) (empty : s.steps.queue = [])
      (alone : s.steps.sender = false) :
      Next s .exhausted { s with client := .idle }
  /-- The client tries whether there is a step, and there is none. -/
  | miss {s : Exchange} (idle : s.client = .idle) (empty : s.steps.queue = []) :
      Next s .unavailable s
  | acknowledge {s : Exchange} {front back : List Message} {message : Message}
      (idle : s.client = .idle) (holds : s.pending = front ++ message :: back) :
      Next s (.acknowledged message.step) { s with
        acks := s.acks.modify message.ack fun channel => (channel.send ()).hangUp
        pending := front ++ back }
  | drop {s : Exchange} {front back : List Message} {message : Message}
      (idle : s.client = .idle) (holds : s.pending = front ++ message :: back) :
      Next s (.dropped message.step) { s with
        acks := s.acks.modify message.ack .hangUp
        pending := front ++ back }
  /-- The client takes no more steps, nothing being left pending. -/
  | finish {s : Exchange} (idle : s.client = .idle) (free : s.pending = []) :
      Next s .finishing { s with
        steps := s.steps.close
        acks := abandon s.steps.queue s.acks
        client := .finishing }
  | join {s : Exchange} {result : Except Failure Completion} (finishing : s.client = .finishing)
      (ended : s.thread = .ended result) :
      Next s (.returned result) { s with client := .returned result }

/-- What has happened by the time that a state is reached, oldest first. -/
inductive Run : List Event → Exchange → Prop where
  | start : Run [] start
  | next {trace : List Event} {s t : Exchange} {event : Event} (earlier : Run trace s)
      (move : Next tree s event t) : Run (trace ++ [event]) t

end Exchange

namespace Event

/-- The steps that were sent, in that order. -/
def sentSteps (trace : List Event) : List Step :=
  trace.filterMap fun
    | .sent step => some step
    | _ => none

def deliveredSteps (trace : List Event) : List Step :=
  trace.filterMap fun
    | .delivered step => some step
    | _ => none

def acknowledgedSteps (trace : List Event) : List Step :=
  trace.filterMap fun
    | .acknowledged step => some step
    | _ => none

def isDrop : Event → Bool
  | .dropped _ => true
  | _ => false

theorem sentSteps_append (trace : List Event) (event : Event) :
    sentSteps (trace ++ [event]) = sentSteps trace ++ sentSteps [event] :=
  List.filterMap_append

theorem deliveredSteps_append (trace : List Event) (event : Event) :
    deliveredSteps (trace ++ [event]) = deliveredSteps trace ++ deliveredSteps [event] :=
  List.filterMap_append

theorem acknowledgedSteps_append (trace : List Event) (event : Event) :
    acknowledgedSteps (trace ++ [event]) = acknowledgedSteps trace ++ acknowledgedSteps [event] :=
  List.filterMap_append

/-- What an event is to the playback of the evaluation. -/
def apply (p : Playback) : Event → Playback
  | .delivered _ | .exhausted => p.next.2
  | .acknowledged _ => p.acknowledge
  | .dropped _ => p.drop
  | _ => p

end Event

/-- The playback of a tree, taken through the calls of a client. -/
def Tree.playback (tree : Tree) (trace : List Event) : Playback :=
  trace.foldl Event.apply (.start tree)

theorem Tree.playback_append (tree : Tree) (trace : List Event) (event : Event) :
    tree.playback (trace ++ [event]) = Event.apply (tree.playback trace) event := by
  rw [playback, List.foldl_append]
  rfl

end Redex
