import Redex.Proofs.Stepping.Exchange

/-! The phases of an exchange. What either side has seen is kept in a tally of the
steps that were sent, delivered and acknowledged, and a small machine says how a
tally may go on. Every state of an exchange is in one of a few phases, each with
its tally, and every move leads to a phase whose tally the machine allows. So
whatever holds of the runs of the machine holds of all interleavings. -/
namespace Redex

open List (replicate)

/-- How far an exchange has come. -/
structure Tally where
  acknowledged : Nat
  sent : Nat
  delivered : Nat
  abandoned : Bool

/-- The result of an evaluation of which so many steps were acknowledged. -/
def Tree.resultAfter (tree : Tree) (acknowledged : Nat) : Except Failure Completion :=
  if acknowledged = tree.record.2.length then tree.record.1 else .error (.refused .disconnected)

theorem Tree.resultAfter_of_lt {tree : Tree} {acknowledged : Nat}
    (early : acknowledged < tree.record.2.length) :
    tree.resultAfter acknowledged = .error (.refused .disconnected) :=
  if_neg (Nat.ne_of_lt early)

/-- The client holds no step: each that it took is acknowledged or dropped. -/
def Tally.Free (tally : Tally) : Prop :=
  tally.delivered = tally.acknowledged + tally.abandoned.toNat

/-- An event that leaves the tally as it is. -/
def Event.IsSilent : Event → Prop
  | .unsent | .resumed | .hungUp | .ended | .asked | .unavailable | .finishing => True
  | _ => False

/-- How a tally goes on. The steps come in the order of the record, each after the one before it
was acknowledged. -/
inductive Tally.Next (tree : Tree) : Tally → Event → Tally → Prop where
  | send {k : Nat} {step : Step} (recorded : tree.record.2[k]? = some step) :
      Next tree ⟨k, k, k, false⟩ (.sent step) ⟨k, k + 1, k, false⟩
  | deliver {k : Nat} {step : Step} (recorded : tree.record.2[k]? = some step) :
      Next tree ⟨k, k + 1, k, false⟩ (.delivered step) ⟨k, k + 1, k + 1, false⟩
  | acknowledge {k : Nat} {step : Step} (recorded : tree.record.2[k]? = some step) :
      Next tree ⟨k, k + 1, k + 1, false⟩ (.acknowledged step) ⟨k + 1, k + 1, k + 1, false⟩
  | drop {k : Nat} {step : Step} (recorded : tree.record.2[k]? = some step) :
      Next tree ⟨k, k + 1, k + 1, false⟩ (.dropped step) ⟨k, k + 1, k + 1, true⟩
  | exhaust {tally : Tally} (finished : tally.abandoned = true ∨
      tally.acknowledged = tree.record.2.length) (free : tally.Free) :
      Next tree tally .exhausted tally
  | settle {tally : Tally} (free : tally.Free) :
      Next tree tally (.returned (tree.resultAfter tally.acknowledged)) tally
  | silent {tally : Tally} {event : Event} (silent : event.IsSilent) :
      Next tree tally event tally

namespace Exchange

/-- A step was dropped or will not be taken, so the evaluation is disconnected. -/
structure Stopped (tree : Tree) (s : Exchange) (tally : Tally) : Prop where
  early : tally.acknowledged < tree.record.2.length
  free : tally.Free
  queue : s.steps.queue = []
  pending : s.pending = []
  givenUp : tally.abandoned = true ∨ s.steps.receiver = false

/-- The phases of an exchange, by where the next step is and what the thread waits for. -/
inductive Phase (tree : Tree) (s : Exchange) : Tally → Prop where
  | computing {k : Nat} (within : k ≤ tree.record.2.length)
      (thread : s.thread = .running (replicate k true))
      (queue : s.steps.queue = []) (pending : s.pending = []) : Phase tree s ⟨k, k, k, false⟩
  | queued {k ack : Nat} {step : Step} (recorded : tree.record.2[k]? = some step)
      (thread : s.thread = .waiting (replicate k true) ack) (channel : s.acks[ack]? = some .opened)
      (queue : s.steps.queue = [⟨step, ack⟩]) (pending : s.pending = [])
      (receiver : s.steps.receiver = true) : Phase tree s ⟨k, k + 1, k, false⟩
  | taken {k ack : Nat} {step : Step} (recorded : tree.record.2[k]? = some step)
      (thread : s.thread = .waiting (replicate k true) ack) (channel : s.acks[ack]? = some .opened)
      (queue : s.steps.queue = []) (pending : s.pending = [⟨step, ack⟩])
      (receiver : s.steps.receiver = true) : Phase tree s ⟨k, k + 1, k + 1, false⟩
  | answered {k ack : Nat} {channel : Channel Unit} (within : k + 1 ≤ tree.record.2.length)
      (thread : s.thread = .waiting (replicate k true) ack)
      (found : s.acks[ack]? = some channel) (answer : channel.queue = [()])
      (queue : s.steps.queue = []) (pending : s.pending = []) :
      Phase tree s ⟨k + 1, k + 1, k + 1, false⟩
  | completed {k : Nat} (all : k = tree.record.2.length)
      (thread : s.thread = .ended tree.record.1)
      (queue : s.steps.queue = []) (pending : s.pending = []) : Phase tree s ⟨k, k, k, false⟩
  | lost {tally : Tally} {ack : Nat} {channel : Channel Unit} (stopped : Stopped tree s tally)
      (thread : s.thread = .waiting (replicate tally.acknowledged true) ack)
      (found : s.acks[ack]? = some channel) (answer : channel.queue = [])
      (alone : channel.sender = false) : Phase tree s tally
  | refused {tally : Tally} (stopped : Stopped tree s tally)
      (thread : s.thread = .running (replicate tally.acknowledged true ++ [false])) :
      Phase tree s tally
  | failed {tally : Tally} (stopped : Stopped tree s tally)
      (thread : s.thread = .ended (.error (.refused .disconnected))) : Phase tree s tally

/-- What a client knows of the exchange by its own calls. -/
def Fits (s : Exchange) : Client → Prop
  | .idle => s.steps.receiver = true
  | .asking => s.steps.receiver = true ∧ s.pending = []
  | .finishing => s.steps.receiver = false
  | .returned result => s.steps.receiver = false ∧ s.thread = .ended result

/-- A state with the tally of what led to it. -/
structure Tallies (tree : Tree) (s : Exchange) (tally : Tally) : Prop where
  phase : Phase tree s tally
  client : s.Fits s.client
  sender : s.steps.sender = s.thread.isBusy

variable {tree : Tree} {s t : Exchange} {tally : Tally} {event : Event}

theorem tallies_start (tree : Tree) : Tallies tree start ⟨0, 0, 0, false⟩ where
  phase := .computing (Nat.zero_le _) rfl rfl rfl
  client := rfl
  sender := rfl

theorem Stopped.of_eq (stopped : Stopped tree s tally) (queue : t.steps.queue = s.steps.queue)
    (receiver : t.steps.receiver = s.steps.receiver) (pending : t.pending = s.pending) :
    Stopped tree t tally where
  early := stopped.early
  free := stopped.free
  queue := queue.trans stopped.queue
  pending := pending.trans stopped.pending
  givenUp := by
    rw [receiver]
    exact stopped.givenUp

theorem resume_of_early (early : tally.acknowledged < tree.record.2.length) :
    tree.resume (replicate tally.acknowledged true ++ [false]) =
      .inr (.error (.refused .disconnected)) :=
  Tree.resume_of_refused (List.getElem?_eq_getElem early)

theorem found_modify {acks : List (Channel Unit)} {ack : Nat} {channel : Channel Unit}
    (found : acks[ack]? = some channel) (change : Channel Unit → Channel Unit) :
    (acks.modify ack change)[ack]? = some (change channel) := by
  rw [List.getElem?_modify_eq, found]
  rfl

namespace Phase

/-- A thread that comes to a step was never refused one. -/
theorem of_step (phase : Phase tree s tally) {answers : List Bool} {step : Step}
    (running : s.thread = .running answers) (next : tree.resume answers = .inl step) :
    ∃ k, tally = ⟨k, k, k, false⟩ ∧ answers = replicate k true ∧
      tree.record.2[k]? = some step ∧ s.steps.queue = [] ∧ s.pending = [] := by
  cases phase with
  | @computing k within thread queue pending =>
    cases running.symm.trans thread
    rcases Nat.lt_or_eq_of_le within with early | rfl
    · have recorded := List.getElem?_eq_getElem early
      cases next.symm.trans (Tree.resume_of_getElem recorded)
      exact ⟨k, rfl, rfl, recorded, queue, pending⟩
    · cases next.symm.trans (Tree.resume_of_length tree)
  | refused stopped thread =>
    cases running.symm.trans thread
    cases next.symm.trans (resume_of_early stopped.early)
  | queued _ thread | taken _ thread | answered _ thread | lost _ thread | completed _ thread
  | failed _ thread => cases running.symm.trans thread

/-- A thread that comes to its result has gone through all steps or was refused one. -/
theorem of_result (phase : Phase tree s tally) {answers : List Bool}
    {result : Except Failure Completion} (running : s.thread = .running answers)
    (finished : tree.resume answers = .inr result) :
    (∃ k, tally = ⟨k, k, k, false⟩ ∧ k = tree.record.2.length ∧ result = tree.record.1 ∧
        s.steps.queue = [] ∧ s.pending = []) ∨
      Stopped tree s tally ∧ result = .error (.refused .disconnected) := by
  cases phase with
  | @computing k within thread queue pending =>
    cases running.symm.trans thread
    rcases Nat.lt_or_eq_of_le within with early | rfl
    · cases finished.symm.trans (Tree.resume_of_getElem (List.getElem?_eq_getElem early))
    · cases finished.symm.trans (Tree.resume_of_length tree)
      exact .inl ⟨_, rfl, rfl, rfl, queue, pending⟩
  | refused stopped thread =>
    cases running.symm.trans thread
    cases finished.symm.trans (resume_of_early stopped.early)
    exact .inr ⟨stopped, rfl⟩
  | queued _ thread | taken _ thread | answered _ thread | lost _ thread | completed _ thread
  | failed _ thread => cases running.symm.trans thread

theorem of_answer (phase : Phase tree s tally) {answers : List Bool} {ack : Nat}
    {channel : Channel Unit} {rest : List Unit} (waiting : s.thread = .waiting answers ack)
    (found : s.acks[ack]? = some channel) (answer : channel.queue = () :: rest) :
    ∃ k, tally = ⟨k + 1, k + 1, k + 1, false⟩ ∧ answers = replicate k true ∧
      k + 1 ≤ tree.record.2.length ∧ s.steps.queue = [] ∧ s.pending = [] := by
  cases phase with
  | queued _ thread opened | taken _ thread opened =>
    cases waiting.symm.trans thread
    cases found.symm.trans opened
    cases answer
  | @answered k _ _ within thread _ _ queue pending =>
    cases waiting.symm.trans thread
    exact ⟨k, rfl, rfl, within, queue, pending⟩
  | lost _ thread found' silent =>
    cases waiting.symm.trans thread
    cases found.symm.trans found'
    cases answer.symm.trans silent
  | computing _ thread | refused _ thread | completed _ thread | failed _ thread =>
    cases waiting.symm.trans thread

theorem of_silence (phase : Phase tree s tally) {answers : List Bool} {ack : Nat}
    {channel : Channel Unit} (waiting : s.thread = .waiting answers ack)
    (found : s.acks[ack]? = some channel) (silent : channel.queue = [])
    (alone : channel.sender = false) :
    Stopped tree s tally ∧ answers = replicate tally.acknowledged true := by
  cases phase with
  | queued _ thread opened | taken _ thread opened =>
    cases waiting.symm.trans thread
    cases found.symm.trans opened
    cases alone
  | answered _ thread found' answer =>
    cases waiting.symm.trans thread
    cases found.symm.trans found'
    cases silent.symm.trans answer
  | lost stopped thread =>
    cases waiting.symm.trans thread
    exact ⟨stopped, rfl⟩
  | computing _ thread | refused _ thread | completed _ thread | failed _ thread =>
    cases waiting.symm.trans thread

/-- A step in the queue is alone, and the thread waits for it. -/
theorem of_queue (phase : Phase tree s tally) {message : Message} {rest : List Message}
    (queued : s.steps.queue = message :: rest) :
    ∃ k, tally = ⟨k, k + 1, k, false⟩ ∧ tree.record.2[k]? = some message.step ∧ rest = [] ∧
      s.thread = .waiting (replicate k true) message.ack ∧
      s.acks[message.ack]? = some .opened ∧ s.pending = [] ∧ s.steps.receiver = true := by
  cases phase with
  | @queued k ack step recorded thread channel queue pending receiver =>
    cases queued.symm.trans queue
    exact ⟨k, rfl, recorded, rfl, thread, channel, pending, receiver⟩
  | computing _ _ queue | taken _ _ _ queue | answered _ _ _ _ queue | completed _ _ queue =>
    cases queued.symm.trans queue
  | lost stopped | refused stopped | failed stopped => cases queued.symm.trans stopped.queue

/-- A step that the client holds is alone, and the thread waits for it. -/
theorem of_pending (phase : Phase tree s tally) {message : Message} {front back : List Message}
    (holds : s.pending = front ++ message :: back) :
    ∃ k, tally = ⟨k, k + 1, k + 1, false⟩ ∧ tree.record.2[k]? = some message.step ∧
      front ++ back = [] ∧ s.thread = .waiting (replicate k true) message.ack ∧
      s.acks[message.ack]? = some .opened ∧ s.steps.queue = [] := by
  have some : s.pending ≠ [] := by simp [holds]
  cases phase with
  | @taken k ack step recorded thread channel queue pending receiver =>
    obtain ⟨rfl, one⟩ | ⟨_, _, none⟩ := List.append_eq_cons_iff.mp (holds.symm.trans pending)
    · cases one
      exact ⟨k, rfl, recorded, rfl, thread, channel, queue⟩
    · exact absurd none (by simp)
  | computing _ _ _ pending | queued _ _ _ _ pending | answered _ _ _ _ _ pending
  | completed _ _ _ pending => exact absurd pending some
  | lost stopped | refused stopped | failed stopped => exact absurd stopped.pending some

theorem of_ended (phase : Phase tree s tally) {result : Except Failure Completion}
    (ended : s.thread = .ended result) :
    result = tree.resultAfter tally.acknowledged ∧ tally.Free ∧
      (tally.acknowledged = tree.record.2.length ∨ Stopped tree s tally) := by
  cases phase with
  | completed all thread =>
    cases ended.symm.trans thread
    exact ⟨(if_pos all).symm, rfl, .inl all⟩
  | failed stopped thread =>
    cases ended.symm.trans thread
    exact ⟨(Tree.resultAfter_of_lt stopped.early).symm, stopped.free, .inr stopped⟩
  | computing _ thread | queued _ thread | taken _ thread | answered _ thread | lost _ thread
  | refused _ thread => cases ended.symm.trans thread

/-- What the client is about to call makes no difference to the phase. -/
theorem of_client (phase : Phase tree s tally) (client : Client) :
    Phase tree { s with client } tally := by
  cases phase with
  | computing within thread queue pending => exact .computing within thread queue pending
  | queued recorded thread channel queue pending receiver =>
    exact .queued recorded thread channel queue pending receiver
  | taken recorded thread channel queue pending receiver =>
    exact .taken recorded thread channel queue pending receiver
  | answered within thread found answer queue pending =>
    exact .answered within thread found answer queue pending
  | completed all thread queue pending => exact .completed all thread queue pending
  | lost stopped thread found silent alone =>
    exact .lost (stopped.of_eq rfl rfl rfl) thread found silent alone
  | refused stopped thread => exact .refused (stopped.of_eq rfl rfl rfl) thread
  | failed stopped thread => exact .failed (stopped.of_eq rfl rfl rfl) thread

/-- Closing the channel gives up the step that is in it, if there is one. -/
theorem close (phase : Phase tree s tally) (free : s.pending = []) :
    Phase tree { s with
      steps := s.steps.close
      acks := abandon s.steps.queue s.acks
      client := .finishing } tally := by
  have kept {tally : Tally} (stopped : Stopped tree s tally) : Stopped tree { s with
      steps := s.steps.close
      acks := abandon s.steps.queue s.acks
      client := .finishing } tally :=
    ⟨stopped.early, stopped.free, rfl, free, .inr rfl⟩
  cases phase with
  | computing within thread => exact .computing within thread rfl free
  | @queued k ack step recorded thread channel queue =>
    have early := (List.getElem?_eq_some_iff.mp recorded).1
    -- The step in the queue goes with the receiver, and with the step the sender of its answer.
    have silent : (abandon s.steps.queue s.acks)[ack]? = some Channel.opened.hangUp := by
      rw [queue]
      exact found_modify channel .hangUp
    exact .lost ⟨early, rfl, rfl, free, .inr rfl⟩ thread silent rfl rfl
  | taken _ _ _ _ pending => cases free.symm.trans pending
  | answered within thread found answer queue =>
    refine .answered within thread ?_ answer rfl free
    rw [queue]
    exact found
  | completed all thread => exact .completed all thread rfl free
  | lost stopped thread found silent alone =>
    refine .lost (kept stopped) thread ?_ silent alone
    rw [stopped.queue]
    exact found
  | refused stopped thread => exact .refused (kept stopped) thread
  | failed stopped thread => exact .failed (kept stopped) thread

end Phase

namespace Tallies

theorem receiver_of_waiting (tallies : Tallies tree s tally)
    (ready : s.client = .asking ∨ s.client = .idle) : s.steps.receiver = true := by
  have client := tallies.client
  rcases ready with asking | idle
  · rw [asking] at client
    exact client.1
  · rw [idle] at client
    exact client

theorem client_of_idle (tallies : Tallies tree s tally) (idle : s.client = .idle)
    (client : t.client = s.client) (receiver : t.steps.receiver = s.steps.receiver) :
    t.Fits t.client := by
  rw [client, idle]
  exact receiver.trans (tallies.receiver_of_waiting (.inr idle))

theorem ended_of_sender (tallies : Tallies tree s tally) (alone : s.steps.sender = false) :
    ∃ result, s.thread = .ended result := by
  have sender := tallies.sender
  rw [alone] at sender
  cases thread : s.thread with
  | ended result => exact ⟨result, rfl⟩
  | running | waiting =>
    rw [thread] at sender
    contradiction

/-- A move of the thread is none of the client's, and keeps the sender of the steps. -/
theorem of_thread (tallies : Tallies tree s tally) {after : Tally} (phase : Phase tree t after)
    (busy : s.thread.isBusy = true) (client : t.client = s.client)
    (pending : t.pending = s.pending) (receiver : t.steps.receiver = s.steps.receiver)
    (sender : t.steps.sender = t.thread.isBusy) : Tallies tree t after where
  phase := phase
  client := by
    have fits := tallies.client
    rw [client]
    cases call : s.client with
    | idle | finishing =>
      rw [call] at fits
      exact receiver.trans fits
    | asking =>
      rw [call] at fits
      exact ⟨receiver.trans fits.1, pending.trans fits.2⟩
    | returned result =>
      rw [call] at fits
      rw [fits.2] at busy
      contradiction
  sender := sender

/-- Every move of an exchange is one that the tally allows. -/
theorem next (tallies : Tallies tree s tally) (move : Next tree s event t) :
    ∃ after, Tally.Next tree tally event after ∧ Tallies tree t after := by
  have phase := tallies.phase
  cases move with
  | send running next open_ =>
    obtain ⟨k, rfl, rfl, recorded, queue, pending⟩ := phase.of_step running next
    have busy : s.thread.isBusy = true := by rw [running]; rfl
    refine ⟨_, .send recorded, tallies.of_thread ?_ busy rfl rfl ?_ ?_⟩
    · apply Phase.queued recorded rfl
      · simp
      · rw [Channel.queue_send open_, queue, List.nil_append]
      · exact pending
      · rw [Channel.receiver_send, open_]
    · rw [Channel.receiver_send]
    · rw [Channel.sender_send]
      exact tallies.sender.trans busy
  | unsent running next closed =>
    obtain ⟨k, rfl, rfl, recorded, queue, pending⟩ := phase.of_step running next
    have early := (List.getElem?_eq_some_iff.mp recorded).1
    have busy : s.thread.isBusy = true := by rw [running]; rfl
    refine ⟨_, .silent trivial, tallies.of_thread ?_ busy rfl rfl rfl (tallies.sender.trans busy)⟩
    exact .refused ⟨early, rfl, queue, pending, .inr closed⟩ rfl
  | resume waiting found answer =>
    obtain ⟨k, rfl, rfl, within, queue, pending⟩ := phase.of_answer waiting found answer
    have busy : s.thread.isBusy = true := by rw [waiting]; rfl
    refine ⟨_, .silent trivial, tallies.of_thread ?_ busy rfl rfl rfl (tallies.sender.trans busy)⟩
    refine .computing within ?_ queue pending
    rw [List.replicate_succ']
  | hangUp waiting found silent alone =>
    obtain ⟨stopped, rfl⟩ := phase.of_silence waiting found silent alone
    have busy : s.thread.isBusy = true := by rw [waiting]; rfl
    refine ⟨_, .silent trivial, tallies.of_thread ?_ busy rfl rfl rfl (tallies.sender.trans busy)⟩
    exact .refused (stopped.of_eq rfl rfl rfl) rfl
  | stop running finished =>
    have busy : s.thread.isBusy = true := by rw [running]; rfl
    refine ⟨_, .silent trivial, tallies.of_thread ?_ busy rfl rfl rfl rfl⟩
    obtain ⟨k, rfl, all, rfl, queue, pending⟩ | ⟨stopped, rfl⟩ := phase.of_result running finished
    · exact .completed all rfl queue pending
    · exact .failed (stopped.of_eq rfl rfl rfl) rfl
  | ask idle free =>
    have receiver := tallies.receiver_of_waiting (.inr idle)
    exact ⟨tally, .silent trivial, phase.of_client .asking, ⟨receiver, free⟩, tallies.sender⟩
  | deliver ready queued =>
    obtain ⟨k, rfl, recorded, rfl, thread, channel, pending, receiver⟩ := phase.of_queue queued
    refine ⟨_, .deliver recorded, ?_, receiver, tallies.sender⟩
    refine .taken recorded thread channel rfl ?_ receiver
    rw [pending, List.nil_append]
  | exhaust asking empty alone =>
    obtain ⟨result, ended⟩ := tallies.ended_of_sender alone
    obtain ⟨-, free, finished⟩ := phase.of_ended ended
    have receiver := tallies.receiver_of_waiting (.inl asking)
    refine ⟨tally, .exhaust ?_ free, phase.of_client .idle, receiver, tallies.sender⟩
    rcases finished with all | stopped
    · exact .inr all
    · -- The client still takes steps, so what stopped the evaluation is that one was dropped.
      exact .inl (stopped.givenUp.resolve_right (by simp [receiver]))
  | miss => exact ⟨tally, .silent trivial, tallies⟩
  | acknowledge idle holds =>
    obtain ⟨k, rfl, recorded, none, thread, channel, queue⟩ := phase.of_pending holds
    have within := (List.getElem?_eq_some_iff.mp recorded).1
    refine ⟨_, .acknowledge recorded, ?_, tallies.client_of_idle idle rfl rfl, tallies.sender⟩
    have answered := found_modify channel fun channel => (channel.send ()).hangUp
    exact .answered within thread answered rfl queue none
  | drop idle holds =>
    obtain ⟨k, rfl, recorded, none, thread, channel, queue⟩ := phase.of_pending holds
    have early := (List.getElem?_eq_some_iff.mp recorded).1
    refine ⟨_, .drop recorded, ?_, tallies.client_of_idle idle rfl rfl, tallies.sender⟩
    have silent := found_modify channel .hangUp
    exact .lost ⟨early, rfl, queue, none, .inl rfl⟩ thread silent rfl rfl
  | finish idle free => exact ⟨tally, .silent trivial, phase.close free, rfl, tallies.sender⟩
  | join finishing ended =>
    obtain ⟨rfl, free, -⟩ := phase.of_ended ended
    have client := tallies.client
    rw [finishing] at client
    exact ⟨tally, .settle free, phase.of_client _, ⟨client, ended⟩, tallies.sender⟩

end Tallies

end Exchange
end Redex
