import Redex.Proofs.Evaluation.Delivery

/-! Evaluations that wait for an answer to each step. What a waiting evaluation
goes on to do is found by evaluating once more with the answers given so far:
they are given to the first steps, and the evaluation stops at the step after
them. The steps it waits at are those of the record. -/
namespace Redex

/-- The answers that are left, the number of the next step, and the step that had none. -/
structure Replay where
  answers : List Bool
  index : Nat
  unanswered : Option Step

/-- Accepts or refuses each step as it was answered; one without an answer stops the evaluation. -/
def Replay.consumer : Consumer Replay := fun reduction => ExceptT.mk fun replay =>
  match replay.answers with
  | true :: rest => (.ok (), ⟨rest, replay.index + 1, none⟩)
  | false :: rest => (.error .disconnected, ⟨rest, replay.index + 1, none⟩)
  | [] => (.error .disconnected, ⟨[], replay.index, some ⟨replay.index, reduction⟩⟩)

namespace Tree

/-- The step that an evaluation waits at after these answers, or else its result. -/
def resume (tree : Tree) (answers : List Bool) : Step ⊕ Except Failure Completion :=
  let (result, replay) := (tree.evaluate Replay.consumer).run ⟨answers, 0, none⟩
  match replay.unanswered with
  | some step => .inl step
  | none => .inr result

theorem replay_accepts (reductions : List Reduction) (rest : List Bool) (index : Nat) :
    Replay.consumer.Accepts ⟨List.replicate reductions.length true ++ rest, index, none⟩ reductions
      ⟨rest, index + reductions.length, none⟩ := by
  induction reductions generalizing index with
  | nil => exact .nil _
  | cons reduction more ih =>
    have later := ih (index + 1)
    rw [Nat.add_assoc, Nat.add_comm 1] at later
    exact .cons rfl later

variable {tree : Tree} {accepted : Nat} {step : Step}

/-- The steps before a recorded one, as reductions. -/
theorem record_split (recorded : tree.record.2[accepted]? = some step) :
    ∃ before rest, tree.record.2.map (·.reduction) = before ++ step.reduction :: rest ∧
      before.length = accepted := by
  obtain ⟨inside, found⟩ := List.getElem?_eq_some_iff.mp recorded
  refine ⟨(tree.record.2.take accepted).map (·.reduction),
    (tree.record.2.drop (accepted + 1)).map (·.reduction), ?_, ?_⟩
  · rw [← found, ← List.map_cons, ← List.map_append, ← List.drop_eq_getElem_cons inside,
      List.take_append_drop]
  · rw [List.length_map, List.length_take_of_le (Nat.le_of_lt inside)]

/-- An evaluation whose first steps were accepted waits at the next one. -/
theorem resume_of_getElem (recorded : tree.record.2[accepted]? = some step) :
    tree.resume (List.replicate accepted true) = .inl step := by
  obtain ⟨before, rest, split, rfl⟩ := record_split recorded
  have accepts := replay_accepts before [] 0
  rw [List.append_nil, Nat.zero_add] at accepts
  rw [resume, evaluate_of_refused split accepts rfl, ← index_of_record recorded]

/-- An evaluation whose steps were all accepted has its result. -/
theorem resume_of_length (tree : Tree) :
    tree.resume (List.replicate tree.record.2.length true) = .inr tree.record.1 := by
  have accepts := replay_accepts (tree.record.2.map (·.reduction)) [] 0
  rw [List.append_nil, List.length_map] at accepts
  rw [resume, evaluate_of_accepts accepts]

/-- A refusal is the result. -/
theorem resume_of_refused (recorded : tree.record.2[accepted]? = some step) :
    tree.resume (List.replicate accepted true ++ [false]) =
      .inr (.error (.refused .disconnected)) := by
  obtain ⟨before, rest, split, rfl⟩ := record_split recorded
  rw [resume, evaluate_of_refused split (replay_accepts before [false] 0) rfl]

end Tree
end Redex
