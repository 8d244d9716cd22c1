import Redex.Proofs.Evaluation.Meaning

/-! The way of an evaluation through a tree. It goes from left to right; it issues
the reduction of an addition when it leaves it, and it fails at the first node
that it enters and that is not evaluated. Going such a way is a property of
computations that is closed under sequencing, and by induction over trees every
node has it. What is issued does not depend on who consumes it. -/
namespace Redex

/-- Why a node is not evaluated, whatever is below it. -/
def Tree.offence? : Tree → Option Failure
  | .program _ _ => none
  | .expressionStatement _ _ => none
  | .binary _ operator _ _ =>
    if operator = .addition then none else some (.unsupportedOperator operator)
  | .literal _ x _ =>
    match x with
    | .regExp _ _ | .bigInt _ => some (.unsupportedLiteral x.typeName)
    | _ => none
  | .leaf _ kind => some (.unsupportedNode kind.name)

/-- A node on the way through a tree, when it is reached and when it is left for good. -/
inductive Visit where
  | enter (node : Tree)
  | leave (node : Tree)

namespace Visit

/-- From entering a node to leaving it. -/
def around (node : Tree) (inner : List Visit) : List Visit :=
  .enter node :: (inner ++ [.leave node])

/-- The additions that are left for good, in the order of leaving them. -/
def additions (visits : List Visit) : List Tree :=
  visits.filterMap fun
    | .enter _ => none
    | .leave node => if node.isAddition then some node else none

/-- These are the reductions of the additions that are left. -/
def Issue (visits : List Visit) (issued : List Reduction) : Prop :=
  (additions visits).mapM Tree.reduction? = some issued

/-- Whether all nodes that are entered can be evaluated. -/
def Clean (visits : List Visit) : Prop := ∀ node, .enter node ∈ visits → node.offence? = none

theorem Clean.nil : Clean [] := fun _ entered => nomatch entered

theorem Clean.append {first second : List Visit} (one : Clean first) (two : Clean second) :
    Clean (first ++ second) := by
  intro node entered
  exact (List.mem_append.mp entered).elim (one node) (two node)

theorem Clean.enter {node : Tree} (sound : node.offence? = none) : Clean [.enter node] := by
  intro other entered
  cases List.mem_singleton.mp entered
  exact sound

theorem Clean.leave (node : Tree) : Clean [.leave node] := by
  intro other entered
  cases List.mem_singleton.mp entered

theorem Clean.around {node : Tree} {inner : List Visit} (clean : Clean inner)
    (sound : node.offence? = none) : Clean (around node inner) :=
  (Clean.enter sound).append (clean.append (.leave node))

theorem additions_append (first second : List Visit) :
    additions (first ++ second) = additions first ++ additions second :=
  List.filterMap_append

theorem additions_around (node : Tree) (inner : List Visit) :
    additions (around node inner) =
      additions inner ++ if node.isAddition then [node] else [] := by
  show additions (inner ++ [.leave node]) = _
  rw [additions_append]
  congr 1
  cases addition : node.isAddition <;> simp [additions, addition]

theorem Issue.nil : Issue [] [] := rfl

theorem Issue.append {first second : List Visit} {issued more : List Reduction}
    (one : Issue first issued) (two : Issue second more) :
    Issue (first ++ second) (issued ++ more) := by
  rw [Issue] at one two ⊢
  rw [additions_append, List.mapM_append, one, two]
  rfl

end Visit

mutual

/-- The way through a tree from left to right. A node is entered before the nodes below it and
left after them. What is below a node that is not evaluated is passed over. -/
def Tree.visits : Tree → List Visit
  | .program span body => Visit.around (.program span body) (Tree.visitsAll body)
  | .expressionStatement span expression =>
    Visit.around (.expressionStatement span expression) expression.visits
  | .binary span operator left right =>
    Visit.around (.binary span operator left right)
      (if operator = .addition then left.visits ++ right.visits else [])
  | .literal span value raw => Visit.around (.literal span value raw) []
  | .leaf span kind => Visit.around (.leaf span kind) []

def Tree.visitsAll : List Tree → List Visit
  | [] => []
  | statement :: rest => statement.visits ++ Tree.visitsAll rest

end

/-- The computation goes this way: it issues the reductions of the additions on it and comes to
something that `holds`, or it stops at the first node that is not evaluated. -/
inductive Follows {α : Type} (run : (σ : Type) → Consumer σ → Evaluation σ α)
    (visits : List Visit) (holds : α → Prop) : Prop where
  | finished {issued : List Reduction} {a : α} (clean : Visit.Clean visits)
      (issue : Visit.Issue visits issued) (value : holds a) (plays : Plays run ⟨issued, .ok a⟩)
  | stopped {before after : List Visit} {node : Tree} {failure : Failure}
      {issued : List Reduction} (split : visits = before ++ .enter node :: after)
      (clean : Visit.Clean before) (offends : node.offence? = some failure)
      (issue : Visit.Issue before issued) (plays : Plays run ⟨issued, .error (.failure failure)⟩)

namespace Follows

open Visit (Clean Issue)

variable {α β : Type} {run : (σ : Type) → Consumer σ → Evaluation σ α}
  {next : α → (σ : Type) → Consumer σ → Evaluation σ β} {visits more : List Visit}
  {holds : α → Prop} {holds' : β → Prop} {node : Tree}

theorem pure {a : α} (value : holds a) :
    Follows (fun σ _ => (Pure.pure a : Evaluation σ α)) [] holds :=
  .finished .nil .nil value (.pure a)

theorem bind (first : Follows run visits holds)
    (second : ∀ a, holds a → Follows (next a) more holds') :
    Follows (fun σ consumer => run σ consumer >>= fun a => next a σ consumer) (visits ++ more)
      holds' := by
  cases first with
  | finished clean issue value plays =>
    cases second _ value with
    | finished clean' issue' value' plays' =>
      exact .finished (clean.append clean') (issue.append issue') value' (plays.bind plays')
    | @stopped before after node _ _ split clean' offends issue' plays' =>
      have split' : visits ++ more = visits ++ before ++ .enter node :: after := by
        rw [split, List.append_assoc]
      exact .stopped split' (clean.append clean') offends (issue.append issue') (plays.bind plays')
  | @stopped before after node _ _ split clean offends issue plays =>
    -- The second way is not gone at all, so nothing is asked of it.
    have split' : visits ++ more = before ++ .enter node :: (after ++ more) := by
      rw [split, List.append_assoc, List.cons_append]
    exact .stopped split' clean offends issue plays.bind_error

/-- Nothing is issued when a node is entered. -/
theorem enter (inner : Follows run visits holds) (sound : node.offence? = none) :
    Follows run (.enter node :: visits) holds := by
  have own := Clean.enter sound
  have silent : Issue [.enter node] [] := rfl
  cases inner with
  | finished clean issue value plays =>
    exact .finished (own.append clean) (silent.append issue) value plays
  | stopped split clean offends issue plays =>
    exact .stopped (congrArg (Visit.enter node :: ·) split) (own.append clean) offends
      (silent.append issue) plays

/-- A node that is no addition is left without a step. -/
theorem leave (inner : Follows run visits holds) (other : node.isAddition = false) :
    Follows run (visits ++ [.leave node]) holds := by
  have silent : Issue [.leave node] [] := by
    simp only [Issue, Visit.additions, List.filterMap_cons, List.filterMap_nil, other,
      Bool.false_eq_true, if_false]
    rfl
  cases inner with
  | finished clean issue value plays =>
    have issue' := issue.append silent
    rw [List.append_nil] at issue'
    exact .finished (clean.append (.leave node)) issue' value plays
  | @stopped before after first _ _ split clean offends issue plays =>
    have split' : visits ++ [.leave node] = before ++ .enter first :: (after ++ [.leave node]) := by
      rw [split, List.append_assoc, List.cons_append]
    exact .stopped split' clean offends issue plays

theorem around (inner : Follows run visits holds) (sound : node.offence? = none)
    (other : node.isAddition = false) : Follows run (Visit.around node visits) holds :=
  (inner.leave other).enter sound

theorem fail {failure : Failure} (offends : node.offence? = some failure) :
    Follows (fun σ _ => (Evaluation.fail failure : Evaluation σ α)) (Visit.around node visits)
      holds := by
  have first : Visit.around node visits = [] ++ .enter node :: (visits ++ [.leave node]) := rfl
  exact .stopped first .nil offends .nil (.ofExcept (.error (.failure failure)))

theorem plays (follows : Follows run visits holds) : ∃ script, Plays run script := by
  cases follows with
  | finished _ _ _ plays => exact ⟨_, plays⟩
  | stopped _ _ _ _ plays => exact ⟨_, plays⟩

end Follows

namespace Evaluation

/-- The way in which the evaluation of a node hands its value on. -/
def Hands (spec : SpecValue) (v : Spanned Value) : Prop :=
  spec = .value v ∨ spec = .completion (.normal v)

theorem Hands.getValue {spec : SpecValue} {v : Spanned Value} (hands : Hands spec v) :
    spec.getValue = .ok v := by
  rcases hands with rfl | rfl
  · rfl
  · exact Completion.returnIfAbrupt_normal v

/-- What a node evaluates to. -/
def Denotes (value? : Option (Spanned Value)) (spec : SpecValue) : Prop :=
  ∃ v, value? = some v ∧ v.value.isSymbol = false ∧ Hands spec v

/-- What a node evaluates to goes through GetValue before it is used. -/
theorem follows_value {α : Type} {run : (σ : Type) → Consumer σ → Evaluation σ SpecValue}
    {next : Spanned Value → (σ : Type) → Consumer σ → Evaluation σ α} {visits more : List Visit}
    {value? : Option (Spanned Value)} {holds : α → Prop}
    (first : Follows run visits (Denotes value?))
    (second : ∀ v, value? = some v → v.value.isSymbol = false → Follows (next v) more holds) :
    Follows (fun σ consumer => do
      let value ← ofExcept (← run σ consumer).getValue
      next value σ consumer) (visits ++ more) holds := by
  apply first.bind
  rintro spec ⟨v, value, ordinary, hands⟩
  rw [hands.getValue]
  exact second v value ordinary

theorem literal_follows (span : Span) (x : Literal) (raw : Option String) :
    Follows (fun σ _ => (literal span x : Evaluation σ SpecValue))
      (Tree.literal span x raw).visits (Denotes (Tree.literal span x raw).value?) := by
  have known (v : Value) (ordinary : v.isSymbol = false) :
      Follows (fun σ _ => (pure (.value ⟨v, some span⟩) : Evaluation σ SpecValue)) []
        (Denotes (some ⟨v, some span⟩)) := .pure ⟨_, rfl, ordinary, .inl rfl⟩
  cases x with
  | null => exact (known .null rfl).around rfl rfl
  | boolean b => exact (known (.boolean b) rfl).around rfl rfl
  | number x => exact (known (.number x) rfl).around rfl rfl
  | string s => exact (known (.string s) rfl).around rfl rfl
  | regExp pattern flags => exact .fail rfl
  | bigInt digits => exact .fail rfl

/-- An addition is performed when it is left. -/
theorem add_follows {node : Tree} {a : Addition} (performs : node.addition? = some a)
    (left : a.left.value.isSymbol = false) (right : a.right.value.isSymbol = false) :
    Follows (fun _ consumer => add consumer a.span a.leftNode a.rightNode a.left a.right)
      [.leave node] (Denotes (some a.value)) := by
  have issue : Visit.Issue [.leave node] [a.reduction] := by
    have addition : node.isAddition = true := by
      unfold Tree.addition? at performs
      split at performs
      · rfl
      · contradiction
    simp only [Visit.Issue, Visit.additions, List.filterMap_cons, List.filterMap_nil, addition,
      if_true, List.mapM_cons, List.mapM_nil, Tree.reduction?, performs, Option.map_some]
    rfl
  exact .finished (.leave node) issue ⟨_, rfl, a.isSymbol_value, .inl rfl⟩
    (add_plays a left right)

mutual

theorem node_follows : (tree : Tree) →
    Follows (fun _ consumer => node consumer tree) tree.visits (Denotes tree.value?)
  | .program span body => by
    simp only [node]
    exact (statements_follows none rfl body).around rfl rfl
  | .expressionStatement span expression => by
    simp only [node]
    have inner : Follows (fun σ consumer => do
        let value ← ofExcept (← node consumer expression).getValue
        (pure (.completion (.normal value)) : Evaluation σ SpecValue))
        (expression.visits ++ []) (Denotes expression.value?) :=
      follows_value (node_follows expression) fun v value ordinary =>
        .pure ⟨v, value, ordinary, .inr rfl⟩
    rw [List.append_nil] at inner
    exact inner.around rfl rfl
  | .binary span operator left right => by
    simp only [node]
    by_cases plus : operator = .addition
    · subst plus
      rw [Tree.visits, Visit.around, if_pos rfl, List.append_assoc]
      refine Follows.enter ?_ rfl
      refine follows_value (node_follows left) fun v leftValue leftOrdinary => ?_
      refine follows_value (node_follows right) fun w rightValue rightOrdinary => ?_
      have performs := @Tree.addition?_of_values span _ _ _ _ leftValue rightValue
      rw [Tree.value?_of_values leftValue rightValue]
      exact add_follows performs leftOrdinary rightOrdinary
    · simp only [if_neg plus]
      exact .fail (if_neg plus)
  | .literal span value raw => by
    simpa only [node] using literal_follows span value raw
  | .leaf span kind => by
    simp only [node]
    exact .fail rfl

theorem statements_follows (last : Option (Spanned Value))
    (ordinary : (last.getD ⟨.undefined, none⟩).value.isSymbol = false) : (body : List Tree) →
      Follows (fun _ consumer => statements consumer last body) (Tree.visitsAll body)
        (Denotes (Tree.lastValue? (last.getD ⟨.undefined, none⟩) body))
  | [] => by
    simp only [statements]
    exact .pure ⟨_, rfl, ordinary, .inr rfl⟩
  | statement :: rest => by
    simp only [statements]
    refine follows_value (node_follows statement) fun v value ordinary => ?_
    have later := statements_follows (some v) ordinary rest
    rwa [Tree.lastValue?, value]

end

end Evaluation

/-- The evaluation of a tree up to its completion, which is normal and has the tree's value. -/
theorem Tree.complete_follows (tree : Tree) :
    Follows (fun _ consumer => tree.complete consumer) tree.visits
      fun c => ∃ v, tree.value? = some v ∧ v.value.isSymbol = false ∧ c = .normal v := by
  rw [← List.append_nil tree.visits]
  apply (Evaluation.node_follows tree).bind
  rintro spec ⟨v, value, ordinary, rfl | rfl⟩
  · exact .pure ⟨v, value, ordinary, rfl⟩
  · exact .pure ⟨v, value, ordinary, rfl⟩

end Redex
