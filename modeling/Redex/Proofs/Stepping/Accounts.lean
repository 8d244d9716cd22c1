import Redex.Proofs.Stepping.Phases

/-! What a tally says about the events that led to it. The steps that were sent,
delivered and acknowledged are as many of the record as it has counted, and the
playback that is taken through the calls of the client is where it says. -/
namespace Redex

variable {tree : Tree} {trace : List Event} {tally after : Tally} {event : Event}

instance (tally : Tally) : Decidable tally.Free :=
  inferInstanceAs (Decidable (tally.delivered = tally.acknowledged + tally.abandoned.toNat))

/-- Where the playback of a tree is. -/
def Tally.playback (tree : Tree) (tally : Tally) : Playback where
  upcoming := tree.record.2.drop tally.delivered
  pending := if tally.Free then none else tree.record.2[tally.acknowledged]?
  abandoned := tally.abandoned
  result := tree.record.1

/-- The events of a run and the tally that they leave. -/
structure Accounts (tree : Tree) (trace : List Event) (tally : Tally) : Prop where
  ordered : tally.acknowledged ≤ tally.delivered
  within : tally.delivered ≤ tree.record.2.length
  sent : Event.sentSteps trace = tree.record.2.take tally.sent
  delivered : Event.deliveredSteps trace = tree.record.2.take tally.delivered
  acknowledged : Event.acknowledgedSteps trace = tree.record.2.take tally.acknowledged
  abandoned : trace.any Event.isDrop = tally.abandoned
  playback : tree.playback trace = tally.playback tree

namespace Tally

theorem playback_next_of_queued {k : Nat} {step : Step}
    (recorded : tree.record.2[k]? = some step) :
    (playback tree ⟨k, k + 1, k, false⟩).next =
      (some step, playback tree ⟨k, k + 1, k + 1, false⟩) := by
  obtain ⟨inside, found⟩ := List.getElem?_eq_some_iff.mp recorded
  have upcoming : tree.record.2.drop k = step :: tree.record.2.drop (k + 1) := by
    rw [← found]
    exact List.drop_eq_getElem_cons inside
  simp [Playback.next, playback, Free, upcoming, recorded]

/-- Nothing is left to play once all steps were acknowledged or one was dropped. -/
theorem playback_next_of_finished (free : tally.Free)
    (finished : tally.abandoned = true ∨ tally.acknowledged = tree.record.2.length) :
    (tally.playback tree).next = (none, tally.playback tree) := by
  cases abandoned : tally.abandoned with
  | true => simp [Playback.next, playback, abandoned]
  | false =>
    have all := finished.resolve_left (by simp [abandoned])
    have taken : tally.delivered = tree.record.2.length := by
      rw [free, abandoned, all]
      rfl
    simp [Playback.next, playback, free, abandoned, taken]

theorem playback_finish (free : tally.Free) (within : tally.delivered ≤ tree.record.2.length) :
    (tally.playback tree).finish = tree.resultAfter tally.acknowledged := by
  rw [Free] at free
  cases abandoned : tally.abandoned with
  | true =>
    rw [abandoned, Bool.toNat_true] at free
    rw [Tree.resultAfter_of_lt (by omega)]
    simp [Playback.finish, playback, abandoned]
  | false =>
    rw [abandoned, Bool.toNat_false, Nat.add_zero] at free
    rw [free] at within
    rcases Nat.lt_or_eq_of_le within with early | all
    · rw [Tree.resultAfter_of_lt early]
      have more : tree.record.2.drop tally.delivered ≠ [] := by
        simp [List.drop_eq_nil_iff, free, early]
      simp [Playback.finish, playback, more]
    · simp [Playback.finish, playback, abandoned, free, all, Tree.resultAfter, Free]

end Tally

namespace Accounts

theorem start (tree : Tree) : Accounts tree [] ⟨0, 0, 0, false⟩ where
  ordered := Nat.le_refl _
  within := Nat.zero_le _
  sent := rfl
  delivered := rfl
  acknowledged := rfl
  abandoned := rfl
  playback := rfl

theorem take_succ {k : Nat} {step : Step} (recorded : tree.record.2[k]? = some step) :
    tree.record.2.take k ++ [step] = tree.record.2.take (k + 1) := by
  rw [List.take_add_one, recorded]
  rfl

theorem length_acknowledged (accounts : Accounts tree trace tally) :
    (Event.acknowledgedSteps trace).length = tally.acknowledged := by
  rw [accounts.acknowledged, List.length_take_of_le]
  exact Nat.le_trans accounts.ordered accounts.within

theorem append (accounts : Accounts tree trace tally)
    (ordered : after.acknowledged ≤ after.delivered)
    (within : after.delivered ≤ tree.record.2.length)
    (sent : tree.record.2.take tally.sent ++ Event.sentSteps [event] =
      tree.record.2.take after.sent)
    (delivered : tree.record.2.take tally.delivered ++ Event.deliveredSteps [event] =
      tree.record.2.take after.delivered)
    (acknowledged : tree.record.2.take tally.acknowledged ++ Event.acknowledgedSteps [event] =
      tree.record.2.take after.acknowledged)
    (abandoned : (tally.abandoned || event.isDrop) = after.abandoned)
    (playback : Event.apply (tally.playback tree) event = after.playback tree) :
    Accounts tree (trace ++ [event]) after where
  ordered := ordered
  within := within
  sent := by rw [Event.sentSteps_append, accounts.sent, sent]
  delivered := by rw [Event.deliveredSteps_append, accounts.delivered, delivered]
  acknowledged := by rw [Event.acknowledgedSteps_append, accounts.acknowledged, acknowledged]
  abandoned := by
    rw [List.any_append, accounts.abandoned, List.any_cons, List.any_nil, Bool.or_false, abandoned]
  playback := by rw [Tree.playback_append, accounts.playback, playback]

/-- What a move adds to the events, it adds to the tally. -/
theorem next (accounts : Accounts tree trace tally) (move : Tally.Next tree tally event after) :
    Accounts tree (trace ++ [event]) after := by
  have same (taken : List Step) : taken ++ [] = taken := List.append_nil taken
  cases move with
  | send recorded =>
    exact accounts.append (Nat.le_refl _) accounts.within (take_succ recorded) (same _) (same _)
      rfl rfl
  | deliver recorded =>
    have inside := (List.getElem?_eq_some_iff.mp recorded).1
    refine accounts.append (Nat.le_succ _) inside (same _) (take_succ recorded) (same _) rfl ?_
    rw [Event.apply, Tally.playback_next_of_queued recorded]
  | acknowledge recorded =>
    refine accounts.append (Nat.le_refl _) accounts.within (same _) (same _) (take_succ recorded)
      rfl ?_
    simp [Event.apply, Playback.acknowledge, Tally.playback, Tally.Free]
  | drop recorded =>
    refine accounts.append (Nat.le_succ _) accounts.within (same _) (same _) (same _) rfl ?_
    simp [Event.apply, Playback.drop, Tally.playback, Tally.Free, recorded]
  | exhaust finished free =>
    refine accounts.append accounts.ordered accounts.within (same _) (same _) (same _)
      (Bool.or_false _) ?_
    rw [Event.apply, Tally.playback_next_of_finished free finished]
  | settle =>
    exact accounts.append accounts.ordered accounts.within (same _) (same _) (same _)
      (Bool.or_false _) rfl
  | silent silent =>
    cases event with
    | sent | delivered | exhausted | acknowledged | dropped | returned => contradiction
    | unsent | resumed | hungUp | ended | asked | unavailable | finishing =>
      exact accounts.append accounts.ordered accounts.within (same _) (same _) (same _)
        (Bool.or_false _) rfl

/-- A step is sent once all before it are acknowledged. -/
theorem of_sent {step : Step} (accounts : Accounts tree trace tally)
    (move : Tally.Next tree tally (.sent step) after) :
    Event.sentSteps trace = Event.acknowledgedSteps trace ∧ trace.any Event.isDrop = false ∧
      tree.record.2[tally.acknowledged]? = some step := by
  cases move with
  | send recorded =>
    exact ⟨accounts.sent.trans accounts.acknowledged.symm, accounts.abandoned, recorded⟩
  | silent silent => contradiction

theorem of_delivered {step : Step} (accounts : Accounts tree trace tally)
    (move : Tally.Next tree tally (.delivered step) after) :
    Event.deliveredSteps trace = Event.acknowledgedSteps trace ∧
      trace.any Event.isDrop = false ∧ tree.record.2[tally.acknowledged]? = some step ∧
      (tree.playback trace).next.1 = some step := by
  cases move with
  | deliver recorded =>
    refine ⟨accounts.delivered.trans accounts.acknowledged.symm, accounts.abandoned, recorded, ?_⟩
    rw [accounts.playback, Tally.playback_next_of_queued recorded]
  | silent silent => contradiction

theorem of_exhausted (accounts : Accounts tree trace tally)
    (move : Tally.Next tree tally .exhausted after) :
    (trace.any Event.isDrop = true ∨ Event.acknowledgedSteps trace = tree.record.2) ∧
      (tree.playback trace).next.1 = none := by
  cases move with
  | exhaust finished free =>
    rw [accounts.abandoned, accounts.acknowledged, accounts.playback,
      Tally.playback_next_of_finished free finished]
    refine ⟨finished.imp_right ?_, rfl⟩
    intro all
    rw [all, List.take_length]
  | silent silent => contradiction

theorem of_returned {result : Except Failure Completion} (accounts : Accounts tree trace tally)
    (move : Tally.Next tree tally (.returned result) after) :
    result = tree.resultAfter tally.acknowledged ∧ (tree.playback trace).finish = result := by
  cases move with
  | settle free =>
    rw [accounts.playback]
    exact ⟨rfl, Tally.playback_finish free accounts.within⟩
  | silent silent => contradiction

end Accounts
end Redex
