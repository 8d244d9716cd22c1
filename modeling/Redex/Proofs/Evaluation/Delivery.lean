import Redex.Proofs.Evaluation.Visits
import Redex.Session.Consumer

/-! Evaluating against a consumer is delivering it the recorded steps. The
recorder refuses nothing, so it sees the whole script of a tree; any other
consumer, whatever its state and whatever it refuses, is handed the same steps
in the same order up to the first that it refuses. -/
namespace Redex

variable {σ α : Type}

/-- Hands a recorded step to a consumer. -/
def Step.applyTo (step : Step) (consumer : Consumer σ) : ExceptT Refusal (StateM σ) Unit :=
  consumer step.reduction

/-- Applies recorded steps one by one, up to the first that is refused. -/
def Step.applyAll (steps : List Step) (consumer : Consumer σ) : ExceptT Refusal (StateM σ) Unit :=
  forM steps fun step => step.applyTo consumer

/-- The steps of an evaluation that issues these reductions. -/
def Step.numbered (reductions : List Reduction) : List Step := reductions.mapIdx Step.mk

theorem Step.map_reduction_numbered (reductions : List Reduction) :
    (numbered reductions).map (·.reduction) = reductions := by
  apply List.ext_getElem?
  intro number
  simp only [numbered, List.getElem?_map, List.getElem?_mapIdx, Option.map_map]
  exact Option.map_id_apply

namespace Consumer

/-- Hands reductions over one by one, up to the first that is refused. -/
def deliver (consumer : Consumer σ) (reductions : List Reduction) :
    ExceptT Refusal (StateM σ) Unit :=
  forM reductions consumer

/-- The same consumer, noting each reduction that it is handed, accepted or not. -/
def observed (consumer : Consumer σ) : Consumer (List Reduction × σ) := fun reduction =>
  ExceptT.mk fun (seen, state) =>
    let (result, left) := outcome (consumer reduction) state
    (result, seen ++ [reduction], left)

theorem outcome_observed (consumer : Consumer σ) (reduction : Reduction) (seen : List Reduction)
    (state : σ) :
    outcome (consumer.observed reduction) (seen, state) =
      ((outcome (consumer reduction) state).1, seen ++ [reduction],
        (outcome (consumer reduction) state).2) := rfl

/-- Accepting reductions one after another takes a consumer from a state to a last one. -/
inductive Accepts (consumer : Consumer σ) : σ → List Reduction → σ → Prop where
  | nil (state : σ) : Accepts consumer state [] state
  | cons {state next last : σ} {reduction : Reduction} {rest : List Reduction} :
      outcome (consumer reduction) state = (.ok (), next) → Accepts consumer next rest last →
      Accepts consumer state (reduction :: rest) last

variable {consumer : Consumer σ}

theorem accepts_or_refuses (consumer : Consumer σ) (state : σ) (reductions : List Reduction) :
    (∃ last, Accepts consumer state reductions last) ∨
      ∃ before reduction rest mid refusal left, reductions = before ++ reduction :: rest ∧
        Accepts consumer state before mid ∧
        outcome (consumer reduction) mid = (.error refusal, left) := by
  induction reductions generalizing state with
  | nil => exact .inl ⟨state, .nil state⟩
  | cons reduction rest ih =>
    cases handed : outcome (consumer reduction) state with
    | mk result left =>
      cases result with
      | error refusal =>
        exact .inr ⟨[], reduction, rest, state, refusal, left, rfl, .nil state, handed⟩
      | ok =>
        obtain ⟨last, accepted⟩ | ⟨before, refused, after, mid, refusal, final, rfl, accepted,
          stop⟩ := ih left
        · exact .inl ⟨last, .cons handed accepted⟩
        · exact .inr ⟨reduction :: before, refused, after, mid, refusal, final, rfl,
            .cons handed accepted, stop⟩

theorem applyAll_eq_deliver (steps : List Step) (consumer : Consumer σ) :
    Step.applyAll steps consumer = consumer.deliver (steps.map (·.reduction)) := by
  rw [deliver, List.forM_map]
  rfl

theorem deliver_cons (consumer : Consumer σ) (reduction : Reduction) (rest : List Reduction) :
    consumer.deliver (reduction :: rest) = consumer reduction >>= fun _ => consumer.deliver rest :=
  List.forM_cons

namespace Accepts

theorem deliver {state last : σ} {reductions : List Reduction}
    (accepted : Accepts consumer state reductions last) :
    outcome (consumer.deliver reductions) state = (.ok (), last) := by
  induction accepted with
  | nil => rfl
  | cons handed _ ih => rw [deliver_cons, outcome_bind_of_ok handed, ih]

theorem deliver_refused {state mid left : σ} {before rest : List Reduction}
    {reduction : Reduction} {refusal : Refusal} (accepted : Accepts consumer state before mid)
    (refused : outcome (consumer reduction) mid = (.error refusal, left)) :
    outcome (consumer.deliver (before ++ reduction :: rest)) state = (.error refusal, left) := by
  induction accepted with
  | nil => rw [List.nil_append, deliver_cons, outcome_bind_of_error refused]
  | cons handed _ ih => rw [List.cons_append, deliver_cons, outcome_bind_of_ok handed, ih refused]

theorem observed {state last : σ} {reductions : List Reduction}
    (accepted : Accepts consumer state reductions last) (seen : List Reduction) :
    Accepts consumer.observed (seen, state) reductions (seen ++ reductions, last) := by
  induction accepted generalizing seen with
  | nil => simpa only [List.append_nil] using Accepts.nil _
  | cons handed _ ih =>
    rename_i reduction rest _
    have noted := ih (seen ++ [reduction])
    rw [List.append_assoc, List.singleton_append] at noted
    exact .cons (by rw [outcome_observed, handed]) noted

theorem recorder (reductions : List Reduction) (steps : List Step) :
    Accepts recorder steps reductions
      (steps ++ reductions.mapIdx fun number reduction => ⟨steps.length + number, reduction⟩) := by
  induction reductions generalizing steps with
  | nil => simpa only [List.mapIdx_nil, List.append_nil] using Accepts.nil steps
  | cons reduction rest ih =>
    have recorded := ih (steps ++ [⟨steps.length, reduction⟩])
    simp only [List.length_append, List.length_singleton, List.append_assoc,
      List.singleton_append, Nat.add_assoc, Nat.add_comm 1] at recorded
    rw [List.mapIdx_cons]
    exact .cons rfl recorded

end Accepts
end Consumer

/-- Playing a script is delivering what it issues. -/
theorem Script.outcome_play (script : Script α) (consumer : Consumer σ) (state : σ) :
    outcome (script.play consumer) state =
      match outcome (consumer.deliver script.issued) state with
      | (.ok (), left) => (script.result, left)
      | (.error refusal, left) => (.error (.failure (.refused refusal)), left) := by
  obtain ⟨issued, result⟩ := script
  induction issued generalizing state with
  | nil => rfl
  | cons reduction rest ih =>
    have unfolded : play ⟨reduction :: rest, result⟩ consumer =
        Evaluation.issue consumer reduction >>= fun _ => play ⟨rest, result⟩ consumer := by
      simp only [play, List.forM_cons, bind_assoc]
    rw [unfolded, outcome_bind, Consumer.deliver_cons, outcome_bind,
      Evaluation.outcome_issue]
    cases outcome (consumer reduction) state with
    | mk handed left =>
      cases handed with
      | error refusal => rfl
      | ok => exact ih left

namespace Tree

/-- An evaluation is the delivery of the reductions of its script, with a result of its own
once all are accepted. -/
theorem evaluate_of_plays {tree : Tree} {script : Script Completion}
    (plays : Plays (fun _ consumer => tree.complete consumer) script) (consumer : Consumer σ)
    (state : σ) :
    (tree.evaluate consumer).run state =
      match outcome (consumer.deliver script.issued) state with
      | (.ok (), left) => (settled script.result, left)
      | (.error refusal, left) => (.error (.refused refusal), left) := by
  have same : tree.complete consumer = script.play consumer := plays σ consumer
  rw [evaluate_eq_outcome, same, Script.outcome_play]
  cases outcome (consumer.deliver script.issued) state with
  | mk handed left => cases handed <;> rfl

/-- The record has the steps of the script, numbered from zero. -/
theorem record_of_plays {tree : Tree} {script : Script Completion}
    (plays : Plays (fun _ consumer => tree.complete consumer) script) :
    tree.record = (settled script.result, Step.numbered script.issued) := by
  show (tree.evaluate Consumer.recorder).run [] = _
  rw [evaluate_of_plays plays, (Consumer.Accepts.recorder script.issued []).deliver]
  simp only [List.nil_append, List.length_nil, Nat.zero_add, Step.numbered]

/-- The record of a tree: the steps are numbered from zero, and they and the result are what
every consumer gets. -/
theorem evaluate_eq_deliver (tree : Tree) :
    (∃ reductions, tree.record.2 = Step.numbered reductions) ∧
      ∀ {σ : Type} (consumer : Consumer σ) (state : σ),
        (tree.evaluate consumer).run state =
          match outcome (consumer.deliver (tree.record.2.map (·.reduction))) state with
          | (.ok (), left) => (tree.record.1, left)
          | (.error refusal, left) => (.error (.refused refusal), left) := by
  obtain ⟨script, plays⟩ := (complete_follows tree).plays
  rw [record_of_plays plays]
  constructor
  · exact ⟨script.issued, rfl⟩
  · intro σ consumer state
    rw [evaluate_of_plays plays, Step.map_reduction_numbered]

theorem index_of_record {tree : Tree} {number : Nat} {step : Step}
    (found : tree.record.2[number]? = some step) : step.index = number := by
  obtain ⟨reductions, numbered⟩ := (evaluate_eq_deliver tree).1
  rw [numbered, Step.numbered, List.getElem?_mapIdx] at found
  obtain ⟨reduction, -, rfl⟩ := Option.map_eq_some_iff.mp found
  rfl

theorem evaluate_of_accepts {tree : Tree} {consumer : Consumer σ} {state last : σ}
    (accepted : consumer.Accepts state (tree.record.2.map (·.reduction)) last) :
    (tree.evaluate consumer).run state = (tree.record.1, last) := by
  rw [(evaluate_eq_deliver tree).2, accepted.deliver]

theorem evaluate_of_refused {tree : Tree} {consumer : Consumer σ} {state mid left : σ}
    {before rest : List Reduction} {reduction : Reduction} {refusal : Refusal}
    (split : tree.record.2.map (·.reduction) = before ++ reduction :: rest)
    (accepted : consumer.Accepts state before mid)
    (refused : outcome (consumer reduction) mid = (.error refusal, left)) :
    (tree.evaluate consumer).run state = (.error (.refused refusal), left) := by
  rw [(evaluate_eq_deliver tree).2, split, accepted.deliver_refused refused]

/-- Every consumer, whatever its state and whatever it refuses, is handed the recorded
steps in order, each once, up to the first that it refuses and none after it. The
result is that refusal, or the recorded result if there is none. A session is left
as by applying the recorded steps to it one by one until one fails. -/
theorem evaluation_follows_record (tree : Tree) :
    (∀ (number : Nat) (step : Step), tree.record.2[number]? = some step → step.index = number) ∧
    (∀ {σ : Type} (consumer : Consumer σ) (state : σ),
      let reductions := tree.record.2.map (·.reduction)
      (∃ last, consumer.Accepts state reductions last ∧
        (tree.evaluate consumer).run state = (tree.record.1, last) ∧
        (tree.evaluate consumer.observed).run ([], state) =
          (tree.record.1, reductions, last)) ∨
      (∃ before reduction rest mid refusal left,
        reductions = before ++ reduction :: rest ∧
        consumer.Accepts state before mid ∧
        outcome (consumer reduction) mid = (.error refusal, left) ∧
        (tree.evaluate consumer).run state = (.error (.refused refusal), left) ∧
        (tree.evaluate consumer.observed).run ([], state) =
          (.error (.refused refusal), before ++ [reduction], left))) ∧
    (∀ session : Session, (Session.evaluate tree).run session =
      match outcome (Step.applyAll tree.record.2 Session.consumer) session with
      | (.ok (), left) => (tree.record.1, left)
      | (.error refusal, left) => (.error (.refused refusal), left)) := by
  constructor
  · intro number step found
    exact index_of_record found
  constructor
  · intro σ consumer state reductions
    obtain ⟨last, accepted⟩ | ⟨before, reduction, rest, mid, refusal, left, split, accepted,
      refused⟩ := consumer.accepts_or_refuses state reductions
    · have noted := accepted.observed []
      exact .inl ⟨last, accepted, evaluate_of_accepts accepted, evaluate_of_accepts noted⟩
    · have noted : outcome (consumer.observed reduction) (before, mid) =
          (.error refusal, before ++ [reduction], left) := by
        rw [Consumer.outcome_observed, refused]
      exact .inr ⟨before, reduction, rest, mid, refusal, left, split, accepted, refused,
        evaluate_of_refused split accepted refused,
        evaluate_of_refused split (accepted.observed []) noted⟩
  · intro session
    show (tree.evaluate Session.consumer).run session = _
    rw [(evaluate_eq_deliver tree).2, Consumer.applyAll_eq_deliver]
    cases outcome (Session.consumer.deliver _) session with
    | mk handed left => cases handed <;> rfl

end Tree
end Redex
