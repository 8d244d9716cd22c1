import Redex.Proofs.Syntax.Document
import Redex.Syntax.Estree

/-! Decoding documents. A node is decoded from its type and span and from the few members that
its type needs, each of which is looked up by its key. So what a document adds or how it orders
members is of no account, and each document of a tree is decoded to that tree. -/
namespace Redex.Estree

open Json (Members Distinct Lacks)

variable {members : Members} {type : String} {span : Span}

/-- A child, if there is a member for it. -/
def decodeChild : Option Json → Except Error (Option Tree)
  | some value => some <$> decode value
  | none => pure none

def decodeOperator : Option Json → Except Error (Option Operator)
  | some value => some <$> orMalformed (operator? value)
  | none => pure none

/-- The tree of a node whose type and span are known. -/
def decodeAs (type : String) (span : Span) (members : Members) : Except Error Tree :=
  if type = "Program" then
    match Json.last? "body" members with
    | some (.array items) => .program span <$> decodeAll items
    | _ => .error .malformed
  else if type = "ExpressionStatement" then
    match Json.last? "expression" members with
    | some value => .expressionStatement span <$> decode value
    | none => .error .malformed
  else if type = "BinaryExpression" then do
    let left ← decodeChild (Json.last? "left" members)
    let operator ← decodeOperator (Json.last? "operator" members)
    let right ← decodeChild (Json.last? "right" members)
    match left, operator, right with
    | some left, some operator, some right => return .binary span operator left right
    | _, _, _ => throw .malformed
  else if type = "Literal" then literal span members
  else .ok (.leaf span (.ofName type))

/-- A node is decoded from its type, its span and the members that its type needs. -/
theorem decode_object (members : Members) :
    decode (.object members) =
      head members >>= fun found => decodeAs found.1 found.2 members := by
  rw [decode]
  congr 1
  funext found
  obtain ⟨type, span⟩ := found
  simp only [decodeAs]
  split
  · split
    · rename_i items found
      simp only [found, map_eq_pure_bind]
    · rename_i others
      split
      · rename_i items found
        exact absurd found (others items)
      · rfl
  · split
    · split
      · rename_i value found
        simp only [found, map_eq_pure_bind]
      · rename_i found
        simp only [found]
        rfl
    · split
      -- Each of `left`, `operator` and `right` is there or not.
      · split <;> split <;> split <;>
          simp_all only [decodeChild, decodeOperator, bind_assoc, map_eq_pure_bind, pure_bind]
      · rfl

theorem index?_integer {n : Nat} (small : n < 0x10000000000000000) :
    Json.index? (.integer n) = some n := by
  have bound : 0 ≤ (n : Int) ∧ (n : Int) < 0x10000000000000000 := by omega
  rw [Json.index?, if_pos bound, Int.toNat_natCast]

theorem span?_pair (addressable : span.Addressable) : Json.span? (pair span) = some span := by
  simp only [pair, Json.span?, index?_integer addressable.1, index?_integer addressable.2]
  rfl

theorem optional?_of_read {α : Type} {read : Json → Option α} {value : Json} {a : α}
    (found : read value = some a) (solid : value ≠ .null) :
    Json.optional? read (some value) = some (some a) := by
  cases value with
  | null => contradiction
  | boolean | integer | float | string | array | object =>
    simp only [Json.optional?, found, Option.map_some]

theorem Heads.head_eq (heads : Heads type span members) (addressable : span.Addressable) :
    head members = .ok (type, span) := by
  have typed := Json.last?_of_mem heads.distinct heads.type
  have index {n : Nat} (small : n < 0x10000000000000000) :
      Json.optional? Json.index? (some (.integer n)) = some (some n) :=
    optional?_of_read (index?_integer small) (by simp)
  have both {other : Span} (small : other.Addressable) :
      Json.optional? Json.span? (some (pair other)) = some (some other) :=
    optional?_of_read (span?_pair small) (by simp [pair])
  rw [head, typed]
  cases heads.span with
  | ends start stop range =>
    rw [Json.last?_of_mem heads.distinct start, Json.last?_of_mem heads.distinct stop,
      Json.last?_of_lacks range, index addressable.1, index addressable.2]
    rfl
  | range start stop range =>
    rw [Json.last?_of_lacks start, Json.last?_of_lacks stop,
      Json.last?_of_mem heads.distinct range, both addressable]
    rfl
  | both start stop small range =>
    rw [Json.last?_of_mem heads.distinct start, Json.last?_of_mem heads.distinct stop,
      Json.last?_of_mem heads.distinct range, index addressable.1, index addressable.2, both small]
    rfl

theorem Shows.plainValue_eq {value : Literal} {shown : Json} (shows : Shows value shown) :
    plainValue shown = .ok value := by
  cases shows with
  | null | boolean | string | float => rfl
  | natural n =>
    have nonnegative : ¬ (n : Int) < 0 := by omega
    simp only [plainValue, Json.number64?, if_neg nonnegative, Int.natAbs_natCast]
    rfl
  | @negative n positive =>
    have negative : -(n : Int) < 0 := by omega
    simp only [plainValue, Json.number64?, if_pos negative, Int.natAbs_neg, Int.natAbs_natCast]
    rfl

theorem TellsRaw.optional?_eq {raw : Option String} (tellsRaw : TellsRaw members raw)
    (distinct : Distinct members) :
    Json.optional? Json.text? (Json.last? "raw" members) = some raw := by
  cases raw with
  | none => rw [Json.last?_of_lacks tellsRaw, Json.optional?]
  | some text =>
    rw [Json.last?_of_mem distinct tellsRaw]
    rfl

theorem regExp?_object {parts : Members} (distinct : Distinct parts) {pattern flags : String}
    (patternMember : ("pattern", .string pattern) ∈ parts)
    (flagsMember : ("flags", .string flags) ∈ parts) :
    regExp? (.object parts) = some (.regExp pattern flags) := by
  rw [regExp?, Json.last?_of_mem distinct flagsMember, Json.last?_of_mem distinct patternMember]
  rfl

theorem Values.literal_eq {value : Literal} {raw : Option String} (values : Values members value)
    (tellsRaw : TellsRaw members raw) (distinct : Distinct members) :
    literal span members = .ok (.literal span value raw) := by
  rw [literal, tellsRaw.optional?_eq distinct]
  cases values with
  | plain shows member regex bigInt =>
    rw [Json.last?_of_mem distinct member, Json.last?_of_lacks regex, Json.last?_of_lacks bigInt,
      Option.getD_some, shows.plainValue_eq]
    rfl
  | regExp unique pattern flags member bigInt =>
    rw [Json.last?_of_mem distinct member, Json.last?_of_lacks bigInt,
      optional?_of_read (regExp?_object unique pattern flags) (by simp)]
    rfl
  | bigInt regex member =>
    rw [Json.last?_of_mem distinct member, Json.last?_of_lacks regex]
    rfl

theorem decodeAll_of_zip {body : List Tree} {items : List Json}
    (same : body.length = items.length)
    (each : ∀ {tree item}, (tree, item) ∈ body.zip items → decode item = .ok tree) :
    decodeAll items = .ok body := by
  induction items generalizing body with
  | nil =>
    obtain rfl := List.eq_nil_of_length_eq_zero same
    rw [decodeAll]
  | cons item rest ih =>
    cases body with
    | nil => contradiction
    | cons tree trees =>
      have below := ih (Nat.succ.inj same) fun paired => each (List.mem_cons_of_mem _ paired)
      rw [decodeAll, each List.mem_cons_self, below]
      rfl

/-- Nothing else is read of a node without children. -/
theorem decodeAs_leaf (members : Members) (span : Span) (free : type ∉ Kind.parentTypes) :
    decodeAs type span members = .ok (.leaf span (.ofName type)) := by
  simp only [Kind.parentTypes, List.mem_cons, List.not_mem_nil, or_false, not_or] at free
  obtain ⟨program, statement, binary, literal⟩ := free
  rw [decodeAs, if_neg program, if_neg statement, if_neg binary, if_neg literal]

/-- Where the head of a node is in order, its tree depends on its type and span only. -/
theorem Heads.decode_eq (heads : Heads type span members) (addressable : span.Addressable) :
    decode (.object members) = decodeAs type span members := by
  rw [decode_object, heads.head_eq addressable]
  rfl

theorem Writes.decode_eq {tree : Tree} {json : Json} (writes : Writes tree json)
    (writable : ∀ node ∈ tree.nodes, node.Writable) : decode json = .ok tree := by
  induction writes with
  | @program span body members items heads member same each ih =>
    have own := writable _ (Tree.mem_nodes_self _)
    have below : decodeAll items = .ok body := by
      apply decodeAll_of_zip same
      intro child item paired
      apply ih paired
      intro node deeper
      exact writable node (Tree.mem_nodes_of_child (List.of_mem_zip paired).1 deeper)
    rw [heads.decode_eq own.1, decodeAs, if_pos rfl, Json.last?_of_mem heads.distinct member]
    simp only [below]
    rfl
  | expressionStatement heads member below ih =>
    have own := writable _ (Tree.mem_nodes_self _)
    have child := ih fun node deeper =>
      writable node (Tree.mem_nodes_of_child List.mem_cons_self deeper)
    rw [heads.decode_eq own.1, decodeAs, if_neg (by decide), if_pos rfl,
      Json.last?_of_mem heads.distinct member]
    simp only [child]
    rfl
  | @binary span operator left right members first second heads operatorMember leftMember rightMember
      leftBelow rightBelow leftIH rightIH =>
    have own := writable _ (Tree.mem_nodes_self _)
    have leftChild := leftIH fun node deeper =>
      writable node (Tree.mem_nodes_of_child List.mem_cons_self deeper)
    have rightChild := rightIH fun node deeper =>
      writable node (Tree.mem_nodes_of_child (List.mem_cons_of_mem _ List.mem_cons_self) deeper)
    have token : operator? (.string operator.token) = some operator :=
      Operator.ofToken?_token operator
    rw [heads.decode_eq own.1, decodeAs, if_neg (by decide), if_neg (by decide), if_pos rfl,
      Json.last?_of_mem heads.distinct leftMember, Json.last?_of_mem heads.distinct operatorMember,
      Json.last?_of_mem heads.distinct rightMember]
    simp only [decodeChild, decodeOperator, leftChild, rightChild, token]
    rfl
  | literal heads values tellsRaw =>
    have own := writable _ (Tree.mem_nodes_self _)
    rw [heads.decode_eq own.1, decodeAs, if_neg (by decide), if_neg (by decide),
      if_neg (by decide), if_pos rfl, values.literal_eq tellsRaw heads.distinct]
  | @leaf span kind members heads =>
    have own := writable _ (Tree.mem_nodes_self _)
    obtain ⟨free, named⟩ := own.2.ofName_name
    rw [heads.decode_eq own.1, decodeAs_leaf members span free, named]

/-- Without repeated members, the outermost node is decoded like any other. -/
theorem decodeRoot_object (distinct : Distinct members) :
    decodeRoot (.object members) = decode (.object members) := by
  have once : ["start", "end", "range"].any (Json.repeats · members) = false := by
    simp only [List.any_cons, List.any_nil, Json.repeats_eq_false distinct, Bool.or_false]
  rw [decodeRoot, once, if_neg Bool.false_ne_true]

theorem Writes.decodeRoot_eq {tree : Tree} {json : Json} (writes : Writes tree json)
    (writable : ∀ node ∈ tree.nodes, node.Writable) : decodeRoot json = .ok tree := by
  obtain ⟨members, rfl, heads⟩ := writes.heads
  rw [decodeRoot_object heads.distinct, writes.decode_eq writable]

theorem ofText_of_ofText? {text : String} {json : Json} (read : Json.ofText? text = some json) :
    ofText text = decodeRoot json := by
  obtain ⟨⟨value, rest⟩, front, whole⟩ := Option.bind_eq_some_iff.mp read
  simp only [Option.ite_none_right_eq_some, Option.some.injEq] at whole
  obtain ⟨ends, rfl⟩ := whole
  rw [ofText, front]
  change (decodeRoot value >>= fun tree =>
    if Json.atEnd rest then pure tree else throw .malformed) = decodeRoot value
  simp only [ends, if_true]
  exact bind_pure (decodeRoot value)

/-- Decoding undoes writing. A tree has a document if its offsets are below 2^64, its numbers are
finite, and no kind it holds as unknown is a kind that is known. Each document of it is decoded to
the tree, be it as a value or from a text that holds it, and each node is decoded from a part of the
document that has the kind of the node as its type. -/
theorem documents_are_decoded (tree : Tree) (writable : ∀ node ∈ tree.nodes, node.Writable) :
    Writes tree (encode tree) ∧ ∀ {json}, Writes tree json →
      decodeRoot json = .ok tree ∧
      (∀ {text}, Json.ofText? text = some json → ofText text = .ok tree) ∧
      ∀ node ∈ tree.nodes, ∃ members, Json.Part (.object members) json ∧
        Json.last? "type" members = some (.string node.kind) ∧
        decode (.object members) = .ok node := by
  refine ⟨writes_encode writable, ?_⟩
  intro json writes
  have root := writes.decodeRoot_eq writable
  refine ⟨root, fun read => (ofText_of_ofText? read).trans root, ?_⟩
  intro node member
  obtain ⟨part, within, written⟩ := writes.part member
  obtain ⟨members, rfl, heads⟩ := written.heads
  have decoded := written.decode_eq fun deeper below =>
    writable deeper (Tree.mem_nodes_trans member below)
  exact ⟨members, within, Json.last?_of_mem heads.distinct heads.type, decoded⟩

/-- A program by its range, a statement with a range beside its ends that is not its own, a regular
expression with a value beside it, and an unknown kind with a member that other kinds would have
to read. -/
theorem documents_are_decoded_of_mixed :
    let pattern : Tree := .literal ⟨0, 4⟩ (.regExp "a" "g") (some "/a/g")
    let unknown : Tree := .leaf ⟨7, 8⟩ (.unknown "JSXText")
    let relation : Tree := .binary ⟨0, 8⟩ .membership pattern unknown
    let tree : Tree := .program ⟨0, 9⟩ [.expressionStatement ⟨0, 8⟩ relation]
    let patternJson : Json := .object [("value", .object []), ("raw", .string "/a/g"),
      ("regex", .object [("flags", .string "g"), ("pattern", .string "a")]),
      ("range", .array [.integer 0, .integer 4]), ("type", .string "Literal")]
    let unknownJson : Json := .object [("type", .string "JSXText"), ("start", .integer 7),
      ("end", .integer 8), ("raw", .array [])]
    let relationJson : Json := .object [("right", unknownJson), ("left", patternJson),
      ("operator", .string "in"), ("type", .string "BinaryExpression"), ("start", .integer 0),
      ("end", .integer 8)]
    let statementJson : Json := .object [("start", .integer 0), ("end", .integer 8),
      ("range", .array [.integer 5, .integer 2]), ("expression", relationJson),
      ("type", .string "ExpressionStatement")]
    let json : Json := .object [("sourceType", .string "script"),
      ("body", .array [statementJson]), ("range", .array [.integer 0, .integer 9]),
      ("type", .string "Program")]
    (∀ node ∈ tree.nodes, node.Writable) ∧ Writes tree json ∧ decodeRoot json = .ok tree := by
  intro pattern unknown relation tree patternJson unknownJson relationJson statementJson json
  have writable : ∀ node ∈ tree.nodes, node.Writable := by decide
  have patternWrites : Writes pattern patternJson := by
    refine .literal ⟨by decide, by simp, .range (by decide) (by decide) (by simp [pair])⟩ ?_ ?_
    · exact .regExp (by decide) (by simp) (by simp)
        (List.mem_cons_of_mem _ (List.mem_cons_of_mem _ List.mem_cons_self)) (by decide)
    · simp [TellsRaw]
  have unknownWrites : Writes unknown unknownJson :=
    .leaf ⟨by decide, by simp [Kind.name], .ends (by simp) (by simp) (by decide)⟩
  have relationWrites : Writes relation relationJson := by
    refine .binary ⟨by decide, by simp, .ends (by simp) (by simp) (by decide)⟩ ?_ ?_ ?_
      patternWrites unknownWrites
    all_goals simp [Operator.token]
  have writes : Writes tree json := by
    refine .program ⟨by decide, by simp, .range (by decide) (by decide) (by simp [pair])⟩
      (List.mem_cons_of_mem _ List.mem_cons_self) rfl ?_
    intro child item paired
    obtain ⟨rfl, rfl⟩ := Prod.mk.inj (List.mem_singleton.mp paired)
    have other : Span.Addressable ⟨5, 2⟩ := by decide
    refine .expressionStatement
      ⟨by decide, by simp, .both (by simp) (by simp) other (by simp [pair])⟩ ?_ relationWrites
    simp
  exact ⟨writable, writes, ((documents_are_decoded tree writable).2 writes).1⟩

end Redex.Estree
