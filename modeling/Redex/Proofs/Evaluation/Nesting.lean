import Mathlib.Data.List.Forall2
import Redex.Proofs.Evaluation.Pieces

/-! Trees whose spans are nested like their nodes. The value of a node may come
from less than the node: from the hull of two operands, from the last statement of
a program inside, or from no text at all, and then it counts as coming from the
whole node. In any case it is somewhere in the node. So the operands of an
addition are in the spans of their nodes, which are in order. -/
namespace Redex

namespace Span

/-- A span that is in order and within another. -/
structure Sits (part whole : Span) : Prop where
  ordered : part.start ≤ part.stop
  within : part.Within whole

variable {inner part whole : Span}

instance : Decidable (part.Within whole) :=
  inferInstanceAs (Decidable (whole.start ≤ part.start ∧ part.stop ≤ whole.stop))

theorem Within.trans (first : inner.Within part) (second : part.Within whole) :
    inner.Within whole :=
  ⟨Nat.le_trans second.1 first.1, Nat.le_trans first.2 second.2⟩

theorem Sits.self (ordered : part.start ≤ part.stop) : part.Sits part :=
  ⟨ordered, Nat.le_refl _, Nat.le_refl _⟩

theorem Sits.trans (first : inner.Sits part) (second : part.Within whole) : inner.Sits whole :=
  ⟨first.ordered, first.within.trans second⟩

theorem Sits.cover {left right : Span} (first : left.Sits whole) (second : right.Sits whole) :
    (left.cover right).Sits whole where
  ordered := Nat.le_trans (Nat.min_le_left _ _)
    (Nat.le_trans first.ordered (Nat.le_max_left _ _))
  within := ⟨Nat.le_min.mpr ⟨first.within.1, second.within.1⟩,
    Nat.max_le.mpr ⟨first.within.2, second.within.2⟩⟩

end Span

namespace Tree

/-- The nodes right below a node. -/
def children : Tree → List Tree
  | .program _ body => body
  | .expressionStatement _ expression => [expression]
  | .binary _ _ left right => [left, right]
  | .literal _ _ _ => []
  | .leaf _ _ => []

mutual

/-- All nodes of a tree, each after those below it. -/
def nodes : Tree → List Tree
  | .program span body => nodesAll body ++ [.program span body]
  | .expressionStatement span expression =>
    nodes expression ++ [.expressionStatement span expression]
  | .binary span operator left right =>
    nodes left ++ nodes right ++ [.binary span operator left right]
  | .literal span value raw => [.literal span value raw]
  | .leaf span kind => [.leaf span kind]

def nodesAll : List Tree → List Tree
  | [] => []
  | statement :: rest => nodes statement ++ nodesAll rest

end

/-- Of two operands that are added, the first ends before the second starts. -/
def OperandsApart : Tree → Prop
  | .binary _ .addition left right => left.span.stop ≤ right.span.start
  | _ => True

/-- A node has its span in order and in a source of this length, with the spans of its children
within it. -/
structure Nested (length : Nat) (node : Tree) : Prop where
  ordered : node.span.start ≤ node.span.stop
  inside : node.span.stop ≤ length
  children : ∀ child ∈ node.children, child.span.Within node.span
  apart : node.OperandsApart

instance (node : Tree) : Decidable node.OperandsApart := by
  unfold OperandsApart
  split <;> infer_instance

instance (length : Nat) (node : Tree) : Decidable (node.Nested length) :=
  decidable_of_iff (node.span.start ≤ node.span.stop ∧ node.span.stop ≤ length ∧
      (∀ child ∈ node.children, child.span.Within node.span) ∧ node.OperandsApart)
    ⟨fun h => ⟨h.1, h.2.1, h.2.2.1, h.2.2.2⟩, fun h => ⟨h.1, h.2, h.3, h.4⟩⟩

mutual

/-- Induction on what is below a node. -/
theorem of_children {holds : Tree → Prop}
    (step : ∀ tree, (∀ child ∈ tree.children, holds child) → holds tree) : (tree : Tree) → holds tree
  | .program _ body => step _ (of_childrenAll step body)
  | .expressionStatement _ expression =>
    step _ (List.forall_mem_singleton.mpr (of_children step expression))
  | .binary _ _ left right => step _ (List.forall_mem_cons.mpr
    ⟨of_children step left, List.forall_mem_singleton.mpr (of_children step right)⟩)
  | .literal _ _ _ => step _ fun _ member => nomatch member
  | .leaf _ _ => step _ fun _ member => nomatch member

theorem of_childrenAll {holds : Tree → Prop}
    (step : ∀ tree, (∀ child ∈ tree.children, holds child) → holds tree) :
    (body : List Tree) → ∀ child ∈ body, holds child
  | [] => fun _ member => nomatch member
  | statement :: rest =>
    List.forall_mem_cons.mpr ⟨of_children step statement, of_childrenAll step rest⟩

end

theorem nodesAll_eq (body : List Tree) : nodesAll body = body.flatMap nodes := by
  induction body with
  | nil => rfl
  | cons statement rest ih => rw [nodesAll, ih, List.flatMap_cons]

theorem visitsAll_eq (body : List Tree) : visitsAll body = body.flatMap visits := by
  induction body with
  | nil => rfl
  | cons statement rest ih => rw [visitsAll, ih, List.flatMap_cons]

theorem nodes_eq (tree : Tree) : tree.nodes = tree.children.flatMap nodes ++ [tree] := by
  cases tree with
  | program => rw [nodes, nodesAll_eq, children]
  | expressionStatement => rw [nodes, children, List.flatMap_singleton]
  | binary =>
    rw [nodes, children, List.flatMap_cons, List.flatMap_singleton]
  | literal => rfl
  | leaf => rfl

theorem visits_eq {tree : Tree} (evaluable : tree.offence? = none) :
    tree.visits = Visit.around tree (tree.children.flatMap visits) := by
  cases tree with
  | program => rw [visits, visitsAll_eq, children]
  | expressionStatement => rw [visits, children, List.flatMap_singleton]
  | binary span operator left right =>
    have plus : operator = .addition := by
      by_contra other
      rw [offence?, if_neg other] at evaluable
      contradiction
    rw [visits, if_pos plus, children, List.flatMap_cons, List.flatMap_singleton]
  | literal => rfl
  | leaf => rfl

theorem mem_nodes_iff {tree node : Tree} :
    node ∈ tree.nodes ↔ (∃ child ∈ tree.children, node ∈ child.nodes) ∨ node = tree := by
  rw [nodes_eq, List.mem_append, List.mem_flatMap, List.mem_singleton]

theorem mem_nodes_self (tree : Tree) : tree ∈ tree.nodes := mem_nodes_iff.mpr (.inr rfl)

theorem mem_nodes_of_child {tree child node : Tree} (member : child ∈ tree.children)
    (below : node ∈ child.nodes) : node ∈ tree.nodes :=
  mem_nodes_iff.mpr (.inl ⟨child, member, below⟩)

theorem mem_nodes_trans {tree node deeper : Tree} (member : node ∈ tree.nodes)
    (below : deeper ∈ node.nodes) : deeper ∈ tree.nodes := by
  induction tree using of_children with
  | step tree ih =>
    obtain ⟨child, own, member⟩ | rfl := mem_nodes_iff.mp member
    · exact mem_nodes_of_child own (ih child own member)
    · exact below

/-- In a tree that evaluates, the additions are left in the order of the nodes. -/
theorem additions_visits {tree : Tree} (evaluable : ∀ node ∈ tree.nodes, node.offence? = none) :
    Visit.additions tree.visits = tree.nodes.filter isAddition := by
  induction tree using of_children with
  | step tree ih =>
    rw [visits_eq (evaluable tree tree.mem_nodes_self), Visit.additions_around, nodes_eq,
      List.filter_append]
    congr 1
    swap
    · cases isAddition : tree.isAddition <;> simp [isAddition]
    rw [Visit.additions, List.filterMap_flatMap, List.filter_flatMap]
    apply List.flatMap_congr
    intro child member
    exact ih child member fun node below => evaluable node (mem_nodes_of_child member below)

theorem visits_clean {tree : Tree} (evaluable : ∀ node ∈ tree.nodes, node.offence? = none) :
    Visit.Clean tree.visits := by
  induction tree using of_children with
  | step tree ih =>
    have own := evaluable tree tree.mem_nodes_self
    rw [visits_eq own]
    refine Visit.Clean.around ?_ own
    intro node entered
    obtain ⟨child, member, below⟩ := List.mem_flatMap.mp entered
    exact ih child member (fun node below => evaluable node (mem_nodes_of_child member below))
      node below

variable {length : Nat} {v : Spanned Value}

/-- The value of statements is the value of one of them, if there is any. -/
theorem lastValue?_cases {last : Spanned Value} {body : List Tree}
    (value : lastValue? last body = some v) :
    v = last ∨ ∃ statement ∈ body, statement.value? = some v := by
  induction body generalizing last with
  | nil => exact .inl (Option.some.inj value).symm
  | cons statement rest ih =>
    obtain ⟨w, first, later⟩ := Option.bind_eq_some_iff.mp value
    obtain rfl | ⟨other, member, value⟩ := ih later
    · exact .inr ⟨statement, List.mem_cons_self, first⟩
    · exact .inr ⟨other, List.mem_cons_of_mem _ member, value⟩

theorem value?_binary_cases {span : Span} {operator : Operator} {left right : Tree}
    (value : (binary span operator left right).value? = some v) :
    operator = .addition ∧ ∃ x y, left.value? = some x ∧ right.value? = some y ∧
      v = (Addition.mk span left.span right.span x y).value := by
  rw [value?] at value
  split at value
  · rename_i plus
    obtain ⟨x, first, value⟩ := Option.bind_eq_some_iff.mp value
    obtain ⟨y, second, value⟩ := Option.bind_eq_some_iff.mp value
    exact ⟨plus, x, y, first, second, (Option.some.inj value).symm⟩
  · contradiction

/-- Where a value is that a node hands on from its child. -/
theorem Nested.sits_of_child {tree child : Tree} (nested : tree.Nested length)
    (member : child ∈ tree.children) (sits : (v.span.getD child.span).Sits child.span) :
    (v.span.getD tree.span).Sits tree.span := by
  cases there : v.span with
  | none => exact .self nested.ordered
  | some span =>
    rw [there] at sits
    exact sits.trans (nested.children child member)

/-- Wherever the value of a tree comes from, it is within the tree. -/
theorem value_sits {tree : Tree} (nested : ∀ node ∈ tree.nodes, node.Nested length)
    (value : tree.value? = some v) : (v.span.getD tree.span).Sits tree.span := by
  induction tree using of_children generalizing v with
  | step tree ih =>
    have own := nested tree tree.mem_nodes_self
    have below (child : Tree) (member : child ∈ tree.children) {v : Spanned Value}
        (value : child.value? = some v) : (v.span.getD tree.span).Sits tree.span :=
      own.sits_of_child member (ih child member
        (fun node below => nested node (mem_nodes_of_child member below)) value)
    cases tree with
    | program span body =>
      rw [value?] at value
      obtain rfl | ⟨statement, member, value⟩ := lastValue?_cases value
      · exact .self own.ordered
      · exact below statement member value
    | expressionStatement span expression =>
      rw [value?] at value
      exact below expression (List.mem_singleton_self _) value
    | binary span operator left right =>
      obtain ⟨-, x, y, first, second, rfl⟩ := value?_binary_cases value
      rw [Addition.value]
      split
      · have leftSits := ih left List.mem_cons_self
          (fun node inside => nested node (mem_nodes_of_child List.mem_cons_self inside)) first
        have rightSits := ih right (List.mem_cons_of_mem _ List.mem_cons_self)
          (fun node inside => nested node
            (mem_nodes_of_child (List.mem_cons_of_mem _ List.mem_cons_self) inside)) second
        exact (leftSits.trans (own.children left List.mem_cons_self)).cover
          (rightSits.trans (own.children right (List.mem_cons_of_mem _ List.mem_cons_self)))
      · exact .self own.ordered
    | literal span x raw =>
      obtain ⟨w, -, rfl⟩ := Option.map_eq_some_iff.mp value
      exact .self own.ordered
    | leaf => contradiction

/-- What an addition at a node may announce: its own span is replaced, or two spans are merged
that are in its operands, one after the other. -/
def Announces (node : Tree) (reduction : Reduction) : Prop :=
  ∃ span left right, node = .binary span .addition left right ∧
    ((∃ text, reduction = .replace span text) ∨
      ∃ first second, reduction = .concatenate first second ∧ first.Sits left.span ∧
        second.Sits right.span ∧ first.stop ≤ second.start)

theorem announces {tree node : Tree} {reduction : Reduction}
    (nested : ∀ node ∈ tree.nodes, node.Nested length) (member : node ∈ tree.nodes)
    (issues : node.reduction? = some reduction) : node.Announces reduction := by
  obtain ⟨a, performs, rfl⟩ := Option.map_eq_some_iff.mp issues
  unfold addition? at performs
  split at performs
  · rename_i span left right
    obtain ⟨x, first, performs⟩ := Option.bind_eq_some_iff.mp performs
    obtain ⟨y, second, performs⟩ := Option.bind_eq_some_iff.mp performs
    cases performs
    have leftMember : left ∈ (binary span .addition left right).children := List.mem_cons_self
    have rightMember : right ∈ (binary span .addition left right).children :=
      List.mem_cons_of_mem _ List.mem_cons_self
    have leftSits := value_sits (fun node inside => nested node
      (mem_nodes_trans member (mem_nodes_of_child leftMember inside))) first
    have rightSits := value_sits (fun node inside => nested node
      (mem_nodes_trans member (mem_nodes_of_child rightMember inside))) second
    have between : left.span.stop ≤ right.span.start := (nested _ member).apart
    refine ⟨span, left, right, rfl, ?_⟩
    rw [Addition.reduction]
    split
    · exact .inr ⟨_, _, rfl, leftSits, rightSits,
        Nat.le_trans leftSits.within.2 (Nat.le_trans between rightSits.within.1)⟩
    · exact .inl ⟨_, rfl⟩
  · contradiction

theorem forall₂_of_mapM {α β : Type} {f : α → Option β} {items : List α} {results : List β}
    (mapped : items.mapM f = some results) :
    List.Forall₂ (fun item result => f item = some result) items results := by
  induction items generalizing results with
  | nil =>
    cases mapped
    exact .nil
  | cons item rest ih =>
    rw [List.mapM_cons] at mapped
    obtain ⟨result, first, mapped⟩ := Option.bind_eq_some_iff.mp mapped
    obtain ⟨others, later, mapped⟩ := Option.bind_eq_some_iff.mp mapped
    cases mapped
    exact .cons first (ih later)

/-- A nested tree without a node that offends has a value, and it announces one reduction for
each addition. -/
theorem record_nested {tree : Tree} (evaluable : ∀ node ∈ tree.nodes, node.offence? = none)
    (nested : ∀ node ∈ tree.nodes, node.Nested length) :
    ∃ v issued, tree.record = (.ok (.normal v), Step.numbered issued) ∧
      List.Forall₂ Announces (tree.nodes.filter isAddition) issued := by
  obtain ⟨v, issued, -, issue, -, -, recorded⟩ |
    ⟨before, node, after, failure, issued, split, -, offends, -, -⟩ := tree.record_cases
  · rw [Visit.Issue, additions_visits evaluable] at issue
    have members : ∀ node ∈ tree.nodes.filter isAddition, node ∈ tree.nodes :=
      fun node member => (List.mem_filter.mp member).1
    refine ⟨v, issued, recorded, ?_⟩
    apply ((List.forall₂_and_left _ _).mpr ⟨members, forall₂_of_mapM issue⟩).imp
    intro node reduction issues
    exact announces nested issues.1 issues.2
  · have entered : Visit.enter node ∈ tree.visits := by
      rw [split]
      exact List.mem_append_right _ List.mem_cons_self
    rw [visits_clean evaluable node entered] at offends
    contradiction

end Tree
end Redex
