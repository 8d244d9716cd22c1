import Redex.Proofs.Evaluation.Offence

/-! Sums of literals. Where a string is among the leaves the value is the text of
the pieces of the sum, joined from left to right: the string literals, and the
largest parts without a string, each of which is added up first. Else it is the
number that the whole adds up to. Each addition is one step, announced once its
operands are evaluated. -/
namespace Redex

namespace Span

/-- Whether a span begins no earlier and ends no later than another. -/
def Within (part whole : Span) : Prop := whole.start ≤ part.start ∧ part.stop ≤ whole.stop

/-- The smallest span that has all of these within. -/
structure Hull (whole : Span) (parts : List Span) : Prop where
  covers : ∀ part ∈ parts, part.Within whole
  least : ∀ other : Span, (∀ part ∈ parts, part.Within other) → whole.Within other

theorem Hull.single (s : Span) : Hull s [s] where
  covers := by
    intro part member
    rw [List.mem_singleton.mp member]
    exact ⟨Nat.le_refl _, Nat.le_refl _⟩
  least _ within := within s (List.mem_singleton_self s)

theorem Hull.cover {s t : Span} {left right : List Span} (one : Hull s left)
    (two : Hull t right) : Hull (s.cover t) (left ++ right) where
  covers := by
    intro part member
    rcases List.mem_append.mp member with member | member
    · have within := one.covers part member
      exact ⟨Nat.le_trans (Nat.min_le_left _ _) within.1,
        Nat.le_trans within.2 (Nat.le_max_left _ _)⟩
    · have within := two.covers part member
      exact ⟨Nat.le_trans (Nat.min_le_right _ _) within.1,
        Nat.le_trans within.2 (Nat.le_max_right _ _)⟩
  least other within := by
    have first := one.least other fun part member => within part (List.mem_append_left _ member)
    have second := two.least other fun part member => within part (List.mem_append_right _ member)
    exact ⟨Nat.le_min.mpr ⟨first.1, second.1⟩, Nat.max_le.mpr ⟨first.2, second.2⟩⟩

end Span

/-- What a literal converts to by ToNumber. -/
def Literal.asNumber (x : Literal) : Binary64 := (x.value?.map Value.asNumber).getD .nan

/-- What a literal converts to by ToString. -/
def Literal.asText (x : Literal) : String := (x.value?.map Value.asText).getD ""

namespace Tree

/-- The trees of additions and of literals that have a value. -/
inductive IsSum : Tree → Prop where
  | literal {span : Span} {x : Literal} {v : Value} {raw : Option String}
      (value : x.value? = some v) : IsSum (.literal span x raw)
  | addition {span : Span} {left right : Tree} (first : IsSum left) (second : IsSum right) :
      IsSum (.binary span .addition left right)

/-- Whether one of the leaves is a string. -/
def hasString : Tree → Bool
  | .literal _ (.string _) _ => true
  | .binary _ _ left right => left.hasString || right.hasString
  | _ => false

/-- The numbers that the leaves convert to, added up in the shape of the tree. -/
def number : Tree → Binary64
  | .literal _ x _ => x.asNumber
  | .binary _ _ left right => left.number.add right.number
  | _ => .nan

/-- From left to right, the string literals and the largest parts without a string. -/
def pieces : Tree → List Tree
  | .binary span operator left right =>
    if left.hasString || right.hasString then left.pieces ++ right.pieces
    else [.binary span operator left right]
  | piece => [piece]

/-- The text of a piece; an addition among the pieces is added up. -/
def text : Tree → String
  | .literal _ x _ => x.asText
  | piece => piece.number.toText

/-- The text of the pieces, one after another. -/
def joined (tree : Tree) : String := String.join (tree.pieces.map text)

/-- Where the value is: over all pieces of a string, and else where the node is. -/
def extent : Tree → Span
  | .binary span _ left right =>
    if left.hasString || right.hasString then left.extent.cover right.extent else span
  | piece => piece.span

/-- The additions from left to right, each after those in its operands. -/
def sums : Tree → List Tree
  | .binary span operator left right =>
    left.sums ++ right.sums ++ [.binary span operator left right]
  | _ => []

/-- The step of an addition, by whether it joins strings. -/
def announced : Tree → Reduction
  | .binary span operator left right =>
    if left.hasString || right.hasString then .concatenate left.extent right.extent
    else .replace span (binary span operator left right).number.toText
  | piece => .replace piece.span piece.text

theorem joined_of_hasString {span : Span} {operator : Operator} {left right : Tree}
    (string : (left.hasString || right.hasString) = true) :
    (binary span operator left right).joined = left.joined ++ right.joined := by
  rw [joined, pieces, if_pos string, List.map_append, String.join_append]
  rfl

theorem joined_of_pieces {piece : Tree} (single : piece.pieces = [piece]) :
    piece.joined = piece.text := by
  rw [joined, single, List.map_singleton, String.join_cons, String.join_nil, String.append_empty]

/-- What a sum evaluates to. -/
structure Sums (tree : Tree) (v : Value) : Prop where
  value : tree.value? = some ⟨v, some tree.extent⟩
  isString : v.isString = tree.hasString
  text : v.asText = tree.joined
  number : tree.hasString = false → v.asNumber = tree.number
  added : tree.hasString = false → tree.isAddition = true → v = .number tree.number

namespace Sums

variable {span : Span} {left right : Tree} {v w : Value}

theorem literal {x : Literal} {raw : Option String} (value : x.value? = some v) :
    Sums (.literal span x raw) v where
  value := by
    rw [value?, value]
    rfl
  isString := by cases x <;> cases value <;> rfl
  text := by
    rw [joined_of_pieces rfl, Tree.text, Literal.asText, value]
    rfl
  number _ := by
    rw [Tree.number, Literal.asNumber, value]
    rfl
  added _ addition := by contradiction

section
variable (one : Sums left v) (two : Sums right w)
include one two

theorem joins : (Addition.mk span left.span right.span ⟨v, some left.extent⟩
    ⟨w, some right.extent⟩).joins = (binary span .addition left right).hasString := by
  rw [Addition.joins, one.isString, two.isString, hasString]

theorem join (string : (left.hasString || right.hasString) = true) :
    Sums (binary span .addition left right) (.string (v.asText ++ w.asText)) where
  value := by
    rw [value?_of_values one.value two.value, Addition.value, one.joins two, hasString,
      if_pos string, extent, if_pos string]
    rfl
  isString := string.symm
  text := by
    rw [joined_of_hasString string, ← one.text, ← two.text]
    rfl
  number none := by
    rw [hasString, string] at none
    contradiction
  added none := by
    rw [hasString, string] at none
    contradiction

theorem add (none : (left.hasString || right.hasString) = false) :
    Sums (binary span .addition left right) (.number (left.number.add right.number)) where
  value := by
    obtain ⟨leftNone, rightNone⟩ := Bool.or_eq_false_iff.mp none
    rw [value?_of_values one.value two.value, Addition.value, one.joins two, hasString,
      if_neg (by rw [none]; decide), extent, if_neg (by rw [none]; decide), Addition.number,
      one.number leftNone, two.number rightNone]
  isString := none.symm
  text := by
    rw [joined_of_pieces (by rw [pieces, if_neg (by rw [none]; decide)])]
    rfl
  number _ := by
    rw [Tree.number]
    rfl
  added _ _ := by rw [Tree.number]

/-- The step of an addition whose operands are sums. -/
theorem reduction? : (binary span .addition left right).reduction? =
    some (binary span .addition left right).announced := by
  rw [Tree.reduction?, addition?_of_values one.value two.value, Option.map_some,
    Addition.reduction, one.joins two, hasString, announced, Tree.number]
  split
  next => rfl
  next none =>
    rw [Bool.not_eq_true, Bool.or_eq_false_iff] at none
    rw [Addition.number, one.number none.1, two.number none.2]

end
end Sums

namespace IsSum

variable {tree : Tree}

theorem sums (sum : tree.IsSum) : ∃ v, Sums tree v := by
  induction sum with
  | literal value => exact ⟨_, .literal value⟩
  | @addition span left right _ _ one two =>
    obtain ⟨v, one⟩ := one
    obtain ⟨w, two⟩ := two
    cases string : left.hasString || right.hasString with
    | true => exact ⟨_, one.join two string⟩
    | false => exact ⟨_, one.add two string⟩

theorem offence?_eq_none (sum : tree.IsSum) : tree.offence? = none := by
  cases sum with
  | @literal _ x _ _ value => cases x <;> cases value <;> rfl
  | addition => rfl

theorem visits_clean (sum : tree.IsSum) : Visit.Clean tree.visits := by
  induction sum with
  | literal value => exact Visit.Clean.nil.around (IsSum.literal value).offence?_eq_none
  | addition first second one two =>
    rw [visits, if_pos rfl]
    exact (one.append two).around rfl

theorem additions_visits (sum : tree.IsSum) : Visit.additions tree.visits = tree.sums := by
  induction sum with
  | literal value => rfl
  | addition first second one two =>
    rw [visits, if_pos rfl, Visit.additions_around, Visit.additions_append, one, two]
    rfl

theorem operands (sum : tree.IsSum) :
    ∀ node ∈ tree.sums, ∃ span left right,
      node = .binary span .addition left right ∧ left.IsSum ∧ right.IsSum := by
  induction sum with
  | literal value =>
    intro node member
    cases member
  | addition first second one two =>
    intro node member
    rw [Tree.sums, List.mem_append, List.mem_append, List.mem_singleton] at member
    obtain (member | member) | rfl := member
    · exact one node member
    · exact two node member
    · exact ⟨_, _, _, rfl, first, second⟩

theorem reduction?_of_mem_sums (sum : tree.IsSum) :
    ∀ node ∈ tree.sums, node.reduction? = some node.announced := by
  intro node member
  obtain ⟨span, left, right, rfl, first, second⟩ := sum.operands node member
  obtain ⟨v, one⟩ := first.sums
  obtain ⟨w, two⟩ := second.sums
  exact one.reduction? two

/-- One step for each addition. -/
theorem visits_issue (sum : tree.IsSum) :
    Visit.Issue tree.visits (tree.sums.map announced) := by
  rw [Visit.Issue, sum.additions_visits]
  have known := sum.reduction?_of_mem_sums
  -- The induction is on the list: that it holds the additions of a tree is in `known`.
  generalize tree.sums = nodes at known
  induction nodes with
  | nil => rfl
  | cons node rest ih =>
    rw [List.mapM_cons, known node (List.mem_cons_self ..),
      ih fun other member => known other (List.mem_cons_of_mem _ member)]
    rfl

theorem hull (sum : tree.IsSum) : Span.Hull tree.extent (tree.pieces.map span) := by
  induction sum with
  | literal value => exact .single _
  | @addition _ left right _ _ one two =>
    rw [extent, pieces]
    split
    · rw [List.map_append]
      exact one.cover two
    · exact .single _

/-- The value of a sum without a string comes from its whole text. -/
theorem extent_eq_span (sum : tree.IsSum) (none : tree.hasString = false) :
    tree.extent = tree.span := by
  cases sum with
  | literal => rfl
  | addition first second =>
    rw [hasString] at none
    rw [extent, none]
    rfl

/-- The value of a sum with all its additions, which is what is recorded. -/
theorem record (sum : tree.IsSum) :
    ∃ v, Sums tree v ∧ tree.record =
      (.ok (.normal ⟨v, some tree.extent⟩), Step.numbered (tree.sums.map announced)) := by
  obtain ⟨v, sums⟩ := sum.sums
  refine ⟨v, sums, ?_⟩
  obtain ⟨w, issued, -, issue, value, -, recorded⟩ |
    ⟨before, node, after, failure, issued, split, -, offends, -, -⟩ := tree.record_cases
  · obtain rfl := Option.some.inj (value.symm.trans sums.value)
    obtain rfl := Option.some.inj (issue.symm.trans sum.visits_issue)
    exact recorded
  · have entered : Visit.enter node ∈ tree.visits := by
      rw [split]
      exact List.mem_append_right _ (List.mem_cons_self ..)
    rw [sum.visits_clean node entered] at offends
    contradiction

end IsSum

/-- A sum of literals evaluates to a string if there is a string among them. This is then the
text of its pieces, and comes from the smallest span over them; else an addition evaluates to
its number. The steps are those of the additions, each after those of its operands, which are
sums too. -/
theorem sum_joins_pieces (tree : Tree) (sum : tree.IsSum) :
    ∃ v, tree.record = (.ok (.normal ⟨v, some tree.extent⟩),
        Step.numbered (tree.sums.map announced)) ∧
      (v.isString = true ↔ tree.hasString = true) ∧
      (tree.hasString = true →
        v = .string (String.join (tree.pieces.map text)) ∧
          Span.Hull tree.extent (tree.pieces.map span)) ∧
      (tree.hasString = false → tree.isAddition = true →
        v = .number tree.number ∧ tree.extent = tree.span) ∧
      ∀ node ∈ tree.sums, ∃ span left right,
        node = .binary span .addition left right ∧ left.IsSum ∧ right.IsSum := by
  obtain ⟨v, sums, recorded⟩ := sum.record
  refine ⟨v, recorded, by rw [sums.isString], ?_, ?_, sum.operands⟩
  · intro string
    have isString := sums.isString.trans string
    refine ⟨?_, sum.hull⟩
    rw [Value.eq_string isString, sums.text, joined]
  · intro none addition
    exact ⟨sums.added none addition, sum.extent_eq_span none⟩

/-- In `null + true + 'a' + ("b" + false)` the first two literals are added up. -/
theorem sum_joins_pieces_of_mixed :
    let numbers : Tree := .binary ⟨0, 11⟩ .addition (.literal ⟨0, 4⟩ .null none)
      (.literal ⟨7, 11⟩ (.boolean true) none)
    let first : Tree := .binary ⟨0, 17⟩ .addition numbers (.literal ⟨14, 17⟩ (.string "a") none)
    let second : Tree := .binary ⟨21, 32⟩ .addition (.literal ⟨21, 24⟩ (.string "b") none)
      (.literal ⟨27, 32⟩ (.boolean false) none)
    let tree : Tree := .binary ⟨0, 33⟩ .addition first second
    tree.IsSum ∧ tree.record = (.ok (.normal ⟨.string "1abfalse", some ⟨0, 32⟩⟩),
      [⟨0, .replace ⟨0, 11⟩ "1"⟩, ⟨1, .concatenate ⟨0, 11⟩ ⟨14, 17⟩⟩,
        ⟨2, .concatenate ⟨21, 24⟩ ⟨27, 32⟩⟩, ⟨3, .concatenate ⟨0, 17⟩ ⟨21, 32⟩⟩]) := by
  intro numbers first second tree
  have sum : tree.IsSum :=
    .addition (.addition (.addition (.literal rfl) (.literal rfl)) (.literal rfl))
      (.addition (.literal rfl) (.literal rfl))
  obtain ⟨v, recorded, -, string, -, -⟩ := sum_joins_pieces tree sum
  have value : v = .string "1abfalse" := (string rfl).1.trans (congrArg _ (by decide +kernel))
  have steps : Step.numbered (tree.sums.map announced) =
      [⟨0, .replace ⟨0, 11⟩ "1"⟩, ⟨1, .concatenate ⟨0, 11⟩ ⟨14, 17⟩⟩,
        ⟨2, .concatenate ⟨21, 24⟩ ⟨27, 32⟩⟩, ⟨3, .concatenate ⟨0, 17⟩ ⟨21, 32⟩⟩] := by
    decide +kernel
  exact ⟨sum, by rw [recorded, steps, value]; rfl⟩

end Tree
end Redex
