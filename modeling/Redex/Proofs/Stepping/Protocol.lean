import Redex.Proofs.Stepping.Waiting

/-! What a client sees of an evaluation in another thread. In every interleaving
and whatever the client does with the steps, they are those of the record, one
at a time, and the result is the recorded one if all were acknowledged. All that
the client gets is what the playback of the tree gives. -/
namespace Redex.Exchange

variable {tree : Tree} {trace : List Event} {s t : Exchange} {event : Event}

theorem Run.tallies (run : Run tree trace s) :
    ∃ tally, Accounts tree trace tally ∧ Tallies tree s tally := by
  induction run with
  | start => exact ⟨_, .start tree, tallies_start tree⟩
  | next _ move ih =>
    obtain ⟨tally, accounts, tallies⟩ := ih
    obtain ⟨after, counted, tallies'⟩ := tallies.next move
    exact ⟨after, accounts.next counted, tallies'⟩

/-- At most one step is on its way or with the client. -/
theorem Phase.in_flight {tally : Tally} (phase : Phase tree s tally) :
    (s.steps.queue ++ s.pending).length ≤ 1 := by
  cases phase with
  | computing _ _ queue pending | queued _ _ _ queue pending | taken _ _ _ queue pending
  | answered _ _ _ _ queue pending | completed _ _ queue pending =>
    simp [queue, pending]
  | lost stopped | refused stopped | failed stopped =>
    simp [stopped.queue, stopped.pending]

/-- The steps are sent and delivered in the order of the record, each once those before it are
acknowledged, and none after one was dropped; at most one is in flight. A client that asks gets
a step until all are acknowledged or one was dropped; one that finishes gets the recorded
result if all were acknowledged, and else it is told that the evaluation was disconnected.
Either call returns in every interleaving, and the playback of the tree, taken through the same
calls, gives the same answers. -/
theorem steps_await_acknowledgement (tree : Tree) (trace : List Event) (s : Exchange)
    (run : Run tree trace s) :
    let acknowledged := Event.acknowledgedSteps trace
    (Event.sentSteps trace <+: tree.record.2 ∧ Event.deliveredSteps trace <+: tree.record.2 ∧
      (s.steps.queue ++ s.pending).length ≤ 1) ∧
    (∀ event t, Next tree s event t →
      (∀ step, event = .sent step →
        Event.sentSteps trace = acknowledged ∧ trace.any Event.isDrop = false ∧
          tree.record.2[acknowledged.length]? = some step ∧ step.index = acknowledged.length) ∧
      (∀ step, event = .delivered step →
        Event.deliveredSteps trace = acknowledged ∧ trace.any Event.isDrop = false ∧
          tree.record.2[acknowledged.length]? = some step ∧ step.index = acknowledged.length ∧
          (tree.playback trace).next.1 = some step) ∧
      (event = .exhausted →
        (trace.any Event.isDrop = true ∨ acknowledged = tree.record.2) ∧
          (tree.playback trace).next.1 = none) ∧
      ∀ result, event = .returned result →
        result = tree.resultAfter acknowledged.length ∧ (tree.playback trace).finish = result) ∧
    (s.client = .asking → Inevitable tree (fun t => t.client = .idle) s) ∧
    (s.client = .finishing →
      Inevitable tree (fun t => t.client = .returned (tree.resultAfter acknowledged.length))
        s) := by
  intro acknowledged
  obtain ⟨tally, accounts, tallies⟩ := run.tallies
  have counted : acknowledged.length = tally.acknowledged := accounts.length_acknowledged
  refine ⟨⟨?_, ?_, tallies.phase.in_flight⟩, ?_, ?_, ?_⟩
  · rw [accounts.sent]
    exact List.take_prefix _ _
  · rw [accounts.delivered]
    exact List.take_prefix _ _
  · intro event t move
    rw [counted]
    obtain ⟨after, next, -⟩ := tallies.next move
    refine ⟨?_, ?_, ?_, ?_⟩
    · rintro step rfl
      obtain ⟨sent, kept, recorded⟩ := accounts.of_sent next
      exact ⟨sent, kept, recorded, Tree.index_of_record recorded⟩
    · rintro step rfl
      obtain ⟨delivered, kept, recorded, played⟩ := accounts.of_delivered next
      exact ⟨delivered, kept, recorded, Tree.index_of_record recorded, played⟩
    · rintro rfl
      exact accounts.of_exhausted next
    · rintro result rfl
      exact accounts.of_returned next
  · intro asking
    have returns := tallies.returns (by rw [asking]; trivial)
    rw [asking] at returns
    exact returns
  · intro finishing
    have returns := tallies.returns (by rw [finishing]; trivial)
    rw [finishing, ← counted] at returns
    exact returns

/-- The second step of `'a' + 'b' + 'c'` is dropped. -/
theorem steps_await_acknowledgement_until_dropped :
    let inner : Tree := .binary ⟨0, 9⟩ .addition (.literal ⟨0, 3⟩ (.string "a") none)
      (.literal ⟨6, 9⟩ (.string "b") none)
    let tree : Tree := .binary ⟨0, 15⟩ .addition inner (.literal ⟨12, 15⟩ (.string "c") none)
    let first : Step := ⟨0, .concatenate ⟨0, 3⟩ ⟨6, 9⟩⟩
    let second : Step := ⟨1, .concatenate ⟨0, 9⟩ ⟨12, 15⟩⟩
    ∃ s, Run tree [.asked, .sent first, .delivered first, .acknowledged first, .resumed,
        .sent second, .delivered second, .dropped second, .finishing] s ∧
      Inevitable tree (fun t => t.client = .returned (.error (.refused .disconnected))) s := by
  intro inner tree first second
  obtain ⟨s, run, finishing⟩ : ∃ s, Run tree [.asked, .sent first, .delivered first,
      .acknowledged first, .resumed, .sent second, .delivered second, .dropped second,
      .finishing] s ∧ s.client = .finishing := by
    have atFirst : tree.resume [] = .inl first := rfl
    have atSecond : tree.resume [true] = .inl second := rfl
    have initial : Run tree [] start := .start
    have asked := initial.next (.ask rfl rfl)
    have sent := asked.next (.send rfl atFirst rfl)
    have delivered := sent.next (.deliver (.inl rfl) rfl)
    have acknowledged := delivered.next (.acknowledge rfl (List.nil_append _).symm)
    have resumed := acknowledged.next (.resume rfl rfl rfl)
    have sentNext := resumed.next (.send rfl atSecond rfl)
    have deliveredNext := sentNext.next (.deliver (.inr rfl) rfl)
    have dropped := deliveredNext.next (.drop rfl (List.nil_append _).symm)
    exact ⟨_, dropped.next (.finish rfl rfl), rfl⟩
  obtain ⟨-, -, -, returns⟩ := steps_await_acknowledgement tree _ s run
  exact ⟨s, run, returns finishing⟩

end Redex.Exchange
