import Redex.Proofs.Evaluation.Nesting
import Redex.Proofs.Session.Addressing

/-! Trees that a session evaluates without a refusal. An operation that is not kept
to single lines is refused for its spans alone: one beyond the source, or an
operand that is not in order. What a nested tree announces has neither, whatever
the session's text has become by then, so each of its steps is accepted. -/
namespace Redex

/-- The reduction has its spans in a source of this length, and its operands in order. -/
def Reduction.Addresses (length : Nat) : Reduction → Prop
  | .replace range _ => range.start ≤ length ∧ range.stop ≤ length
  | .concatenate left right =>
    (left.start ≤ left.stop ∧ left.stop ≤ length) ∧ right.start ≤ right.stop ∧ right.stop ≤ length

namespace Tree

variable {tree node : Tree} {length : Nat}

theorem Announces.addresses {reduction : Reduction} (announces : node.Announces reduction)
    (member : node ∈ tree.nodes) (nested : ∀ node ∈ tree.nodes, node.Nested length) :
    reduction.Addresses length := by
  obtain ⟨span, left, right, rfl, ⟨text, rfl⟩ | ⟨first, second, rfl, leftSits, rightSits, -⟩⟩ :=
    announces
  · have own := nested _ member
    exact ⟨Nat.le_trans own.ordered own.inside, own.inside⟩
  · have within (child : Tree) (operand : child ∈ (binary span .addition left right).children) :
        child.span.stop ≤ length :=
      (nested child (mem_nodes_trans member
        (mem_nodes_of_child operand child.mem_nodes_self))).inside
    have leftInside := within left List.mem_cons_self
    have rightInside := within right (List.mem_cons_of_mem _ List.mem_cons_self)
    exact ⟨⟨leftSits.ordered, Nat.le_trans leftSits.within.2 leftInside⟩,
      rightSits.ordered, Nat.le_trans rightSits.within.2 rightInside⟩

theorem addresses_of_announced {nodes : List Tree} {issued : List Reduction}
    (announced : List.Forall₂ Announces nodes issued) (members : ∀ node ∈ nodes, node ∈ tree.nodes)
    (nested : ∀ node ∈ tree.nodes, node.Nested length) :
    ∀ reduction ∈ issued, reduction.Addresses length := by
  induction announced with
  | nil => exact fun _ member => nomatch member
  | cons first _ ih =>
    rw [List.forall_mem_cons] at members ⊢
    exact ⟨first.addresses members.1 nested, ih members.2⟩

end Tree

namespace Session

variable {session : Session}

theorem allows_of_unrestricted (unrestricted : session.options.singleLine = false)
    (reach : Span) : session.Allows reach := by
  intro single
  rw [unrestricted] at single
  contradiction

theorem readOperands_succeeds (sound : session.text.Sound)
    (unrestricted : session.options.singleLine = false) {left right : Span}
    (addressed : (Reduction.concatenate left right).Addresses session.text.source.length) :
    outcome (readOperands left right) session =
      (.ok (session.operandAt left, session.operandAt right), session) := by
  obtain ⟨⟨leftOrdered, leftInside⟩, rightOrdered, rightInside⟩ := addressed
  have within : (Reduction.concatenate left right).Within session.text.source.length :=
    ⟨⟨Nat.le_trans leftOrdered leftInside, leftInside⟩,
      Nat.le_trans rightOrdered rightInside, rightInside⟩
  -- Places are ordered like the offsets, whatever was edited in between.
  apply readOperands_of_ordered sound within (allows_of_unrestricted unrestricted _)
  · exact Nat.not_lt_of_le (session.text.place_mono leftOrdered)
  · exact Nat.not_lt_of_le (session.text.place_mono rightOrdered)

theorem prepare_succeeds (sound : session.text.Sound)
    (unrestricted : session.options.singleLine = false) {reduction : Reduction}
    (addressed : reduction.Addresses session.text.source.length) :
    ∃ edits, outcome (prepare reduction) session = (.ok edits, session) := by
  cases reduction with
  | replace range text =>
    obtain ⟨first, last, begins, ends, prepared⟩ :=
      outcome_prepare_replace sound addressed
    have checked := outcome_checkLines_of_allows
      (allows_of_unrestricted unrestricted range) begins ends
    exact ⟨_, prepared.trans (outcome_bind_of_ok checked _)⟩
  | concatenate left right =>
    refine ⟨mergeOperands (session.operandAt left) (session.operandAt right), ?_⟩
    rw [prepare, outcome_bind_of_ok (readOperands_succeeds sound unrestricted addressed)]
    rfl

theorem consumer_succeeds (sound : session.text.Sound)
    (unrestricted : session.options.singleLine = false) {reduction : Reduction}
    (addressed : reduction.Addresses session.text.source.length) :
    ∃ edited, outcome (consumer reduction) session = (.ok (), session.shown edited) := by
  obtain ⟨edits, prepared⟩ := prepare_succeeds sound unrestricted addressed
  obtain ⟨edited, made⟩ := edits_succeed sound prepared
  refine ⟨edited, ?_⟩
  rw [consumer_eq_prepare, outcome_bind_of_ok prepared]
  exact made

/-- Operations never run out of the source, since it stays what it was. -/
theorem accepts_addressed {reductions : List Reduction} (reachable : Reachable session)
    (unrestricted : session.options.singleLine = false)
    (addressed : ∀ reduction ∈ reductions, reduction.Addresses session.text.source.length) :
    ∃ last frames, consumer.Accepts session reductions last ∧
      last.frames = session.frames ++ frames ∧ frames.length = reductions.length := by
  induction reductions generalizing session with
  | nil => exact ⟨session, [], .nil session, (List.append_nil _).symm, rfl⟩
  | cons reduction rest ih =>
    obtain ⟨edited, accepted⟩ := consumer_succeeds reachable.sound unrestricted
      (addressed reduction List.mem_cons_self)
    have next := reachable.apply reduction
    have kept := EditsByCalls.consumer reduction session
    rw [accepted] at next kept
    obtain ⟨⟨calls, text⟩, options⟩ := kept
    have source : (session.shown edited).text.source = session.text.source := by
      rw [text, LiveText.source_run]
    obtain ⟨last, frames, later, shown, count⟩ := ih next (options ▸ unrestricted)
      fun other member => source ▸ addressed other (List.mem_cons_of_mem _ member)
    refine ⟨last, edited.live :: frames, .cons accepted later, ?_, congrArg (· + 1) count⟩
    rw [shown, Session.shown, List.append_assoc, List.singleton_append]

/-- A session that is not kept to single lines evaluates every nested tree of its source without a
node that offends, whatever was done to the text before. Each addition is one step, in the order of
the nodes; where it merges two operands, these are in order, and each is in the node of its own.
Each step adds one frame. -/
theorem nested_tree_evaluates (reachable : Reachable session)
    (unrestricted : session.options.singleLine = false) {tree : Tree}
    (evaluable : ∀ node ∈ tree.nodes, node.offence? = none)
    (nested : ∀ node ∈ tree.nodes, node.Nested session.text.source.length) :
    ∃ v issued last frames,
      (Session.evaluate tree).run session = (.ok (.normal v), last) ∧
      (tree.evaluate consumer.observed).run ([], session) = (.ok (.normal v), issued, last) ∧
      List.Forall₂ Tree.Announces (tree.nodes.filter Tree.isAddition) issued ∧
      last.frames = session.frames ++ frames ∧
      frames.length = (tree.nodes.filter Tree.isAddition).length := by
  obtain ⟨v, issued, recorded, announced⟩ := Tree.record_nested evaluable nested
  have addressed := Tree.addresses_of_announced announced
    (fun node member => (List.mem_filter.mp member).1) nested
  obtain ⟨last, frames, accepted, shown, count⟩ :=
    accepts_addressed reachable unrestricted addressed
  have steps : tree.record.2.map (·.reduction) = issued := by
    rw [recorded, Step.map_reduction_numbered]
  have result : tree.record.1 = .ok (.normal v) := by rw [recorded]
  rw [← steps] at accepted
  have whole := Tree.evaluate_of_accepts accepted
  have noted := Tree.evaluate_of_accepts (accepted.observed [])
  rw [result] at whole noted
  rw [steps] at noted
  exact ⟨v, issued, last, frames, whole, noted, announced, shown,
    count.trans announced.length_eq.symm⟩

/-- The right operand of a sum over two lines is a program without statements, whose value comes
from no text, and some text was replaced before. -/
theorem nested_tree_evaluates_after_edit :
    let inner : Tree := .binary ⟨0, 5⟩ .addition (.literal ⟨0, 1⟩ (.string "a") none)
      (.expressionStatement ⟨4, 5⟩ (.program ⟨4, 5⟩ []))
    let tree : Tree := .binary ⟨0, 9⟩ .addition inner (.literal ⟨8, 9⟩ .null none)
    let session := (outcome (consumer (.replace ⟨8, 9⟩ "null"))
      (ofText ['a', ' ', '+', '\n', 'b', ' ', '+', ' ', 'c'] ⟨false, '"'⟩)).2
    Reachable session ∧ session.options.singleLine = false ∧
      (∀ node ∈ tree.nodes, node.offence? = none) ∧
      (∀ node ∈ tree.nodes, node.Nested session.text.source.length) ∧
      ∃ v last, (Session.evaluate tree).run session = (.ok (.normal v), last) ∧
        last.frames.length = 3 := by
  intro inner tree session
  have reachable : Reachable session := .apply (.ofText _ _) _
  have evaluable : ∀ node ∈ tree.nodes, node.offence? = none := by decide
  have nested : ∀ node ∈ tree.nodes, node.Nested session.text.source.length := by decide
  obtain ⟨v, issued, last, frames, evaluated, -, -, shown, count⟩ :=
    nested_tree_evaluates reachable rfl evaluable nested
  refine ⟨reachable, rfl, evaluable, nested, v, last, evaluated, ?_⟩
  rw [shown, List.length_append, count]
  rfl

end Session
end Redex
