import Redex.Proofs.Evaluation.Nesting
import Redex.Proofs.Json.Members

/-! Trees written as ESTree documents. There is more than one document of a tree: the members of a
node come in any order and may have others beside them, the span of a node is told by `start` and
`end` or by `range`, and a whole number need not be written with a fraction. -/
namespace Redex

/-- Both ends are below 2^64. -/
def Span.Addressable (span : Span) : Prop :=
  span.start < 0x10000000000000000 ∧ span.stop < 0x10000000000000000

instance (span : Span) : Decidable span.Addressable :=
  inferInstanceAs (Decidable (_ ∧ _))

def Binary64.Finite : Binary64 → Prop
  | .finite _ _ => True
  | _ => False

instance : (x : Binary64) → Decidable x.Finite
  | .finite _ _ => isTrue trivial
  | .nan => isFalse id
  | .infinite _ => isFalse id

/-- A value that JSON or a member of its own can hold. -/
def Literal.Writable : Literal → Prop
  | .number x => x.Finite
  | _ => True

instance : (value : Literal) → Decidable value.Writable
  | .number x => inferInstanceAs (Decidable x.Finite)
  | .null | .boolean _ | .string _ | .regExp _ _ | .bigInt _ => isTrue trivial

/-- A kind that is told by its name. -/
def Kind.Writable : Kind → Prop
  | .named _ _ => True
  | .unknown name => name ∉ parentTypes ∧ name ∉ leafTypes

instance : (kind : Kind) → Decidable kind.Writable
  | .named _ _ => isTrue trivial
  | .unknown name => inferInstanceAs (Decidable (name ∉ Kind.parentTypes ∧ name ∉ Kind.leafTypes))

theorem Kind.Writable.ofName_name {kind : Kind} (writable : kind.Writable) :
    kind.name ∉ parentTypes ∧ ofName kind.name = kind := by
  cases kind with
  | named name known =>
    refine ⟨fun parent => not_mem_leafTypes parent known, ?_⟩
    rw [Kind.name, ofName, dif_pos known]
  | unknown name =>
    refine ⟨writable.1, ?_⟩
    rw [Kind.name, ofName, dif_neg writable.2]

/-- A node that can be told by the members of an object, its children apart. -/
def Tree.Writable (node : Tree) : Prop :=
  node.span.Addressable ∧
    match node with
    | .literal _ value _ => value.Writable
    | .leaf _ kind => kind.Writable
    | _ => True

instance : (node : Tree) → Decidable node.Writable
  | .literal _ _ _ => inferInstanceAs (Decidable (_ ∧ _))
  | .leaf _ _ => inferInstanceAs (Decidable (_ ∧ _))
  | .program _ _ | .expressionStatement _ _ | .binary _ _ _ _ =>
    inferInstanceAs (Decidable (_ ∧ True))

/-- A value that is within another, or is that value. -/
inductive Json.Part (part : Json) : Json → Prop
  | self : Part part part
  | item {item : Json} {items : List Json} (member : item ∈ items) (within : Part part item) :
      Part part (.array items)
  | member {key : String} {value : Json} {members : Members} (member : (key, value) ∈ members)
      (within : Part part value) : Part part (.object members)

namespace Estree

open Json (Members Distinct Lacks)

/-- A span as the array of its ends. -/
def pair (span : Span) : Json := .array [.integer span.start, .integer span.stop]

/-- The members that tell a span. Beside `start` and `end` the range may be any other. -/
inductive Locates (span : Span) (members : Members) : Prop
  | ends (start : ("start", .integer span.start) ∈ members)
      (stop : ("end", .integer span.stop) ∈ members) (range : Lacks members "range")
  | range (start : Lacks members "start") (stop : Lacks members "end")
      (range : ("range", pair span) ∈ members)
  | both {other : Span} (start : ("start", .integer span.start) ∈ members)
      (stop : ("end", .integer span.stop) ∈ members) (addressable : other.Addressable)
      (range : ("range", pair other) ∈ members)

/-- The members that every node has. -/
structure Heads (type : String) (span : Span) (members : Members) : Prop where
  distinct : Distinct members
  type : ("type", .string type) ∈ members
  span : Locates span members

/-- The JSON values of a literal that has any. -/
inductive Shows : Literal → Json → Prop
  | null : Shows .null .null
  | boolean (b : Bool) : Shows (.boolean b) (.boolean b)
  | string (s : String) : Shows (.string s) (.string s)
  | float {x : Binary64} (finite : x.Finite) : Shows (.number x) (.float x)
  | natural (n : Nat) : Shows (.number (.ofNat n)) (.integer n)
  | negative {n : Nat} (positive : 0 < n) : Shows (.number (Binary64.ofNat n).neg) (.integer (-n))

/-- The members that tell the value of a literal. A regular expression or a big integer may have
any `value` beside the member that it is told by. -/
inductive Values (members : Members) : Literal → Prop
  | plain {value : Literal} {shown : Json} (shows : Shows value shown)
      (member : ("value", shown) ∈ members) (regex : Lacks members "regex")
      (bigInt : Lacks members "bigint") : Values members value
  | regExp {pattern flags : String} {parts : Members} (distinct : Distinct parts)
      (patternMember : ("pattern", .string pattern) ∈ parts)
      (flagsMember : ("flags", .string flags) ∈ parts)
      (member : ("regex", .object parts) ∈ members) (bigInt : Lacks members "bigint") :
      Values members (.regExp pattern flags)
  | bigInt {digits : String} (regex : Lacks members "regex")
      (member : ("bigint", .string digits) ∈ members) : Values members (.bigInt digits)

/-- The raw text of a literal is left out where there is none. -/
def TellsRaw (members : Members) : Option String → Prop
  | none => Lacks members "raw"
  | some text => ("raw", .string text) ∈ members

/-- A value is a document of a tree. -/
inductive Writes : Tree → Json → Prop
  | program {span : Span} {body : List Tree} {members : Members} {items : List Json}
      (heads : Heads "Program" span members) (member : ("body", .array items) ∈ members)
      (same : body.length = items.length)
      (each : ∀ {tree item}, (tree, item) ∈ body.zip items → Writes tree item) :
      Writes (.program span body) (.object members)
  | expressionStatement {span : Span} {expression : Tree} {members : Members} {value : Json}
      (heads : Heads "ExpressionStatement" span members)
      (member : ("expression", value) ∈ members) (below : Writes expression value) :
      Writes (.expressionStatement span expression) (.object members)
  | binary {span : Span} {operator : Operator} {left right : Tree} {members : Members}
      {first second : Json} (heads : Heads "BinaryExpression" span members)
      (operatorMember : ("operator", .string operator.token) ∈ members)
      (leftMember : ("left", first) ∈ members) (rightMember : ("right", second) ∈ members)
      (leftBelow : Writes left first) (rightBelow : Writes right second) :
      Writes (.binary span operator left right) (.object members)
  | literal {span : Span} {value : Literal} {raw : Option String} {members : Members}
      (heads : Heads "Literal" span members) (values : Values members value)
      (tellsRaw : TellsRaw members raw) : Writes (.literal span value raw) (.object members)
  | leaf {span : Span} {kind : Kind} {members : Members} (heads : Heads kind.name span members) :
      Writes (.leaf span kind) (.object members)

theorem Writes.heads {tree : Tree} {json : Json} (writes : Writes tree json) :
    ∃ members, json = .object members ∧ Heads tree.kind tree.span members := by
  cases writes with
  | program heads => exact ⟨_, rfl, heads⟩
  | expressionStatement heads => exact ⟨_, rfl, heads⟩
  | binary heads => exact ⟨_, rfl, heads⟩
  | literal heads => exact ⟨_, rfl, heads⟩
  | leaf heads => exact ⟨_, rfl, heads⟩

/-- Each node of a tree has a document of its own within that of the tree. -/
theorem Writes.part {tree node : Tree} {json : Json} (writes : Writes tree json)
    (member : node ∈ tree.nodes) : ∃ part, Json.Part part json ∧ Writes node part := by
  induction writes with
  | program heads bodyMember same each ih =>
    obtain ⟨child, own, below⟩ | rfl := Tree.mem_nodes_iff.mp member
    · rw [Tree.children, ← List.map_fst_zip (Nat.le_of_eq same)] at own
      obtain ⟨⟨_, item⟩, paired, rfl⟩ := List.mem_map.mp own
      obtain ⟨part, within, written⟩ := ih paired below
      exact ⟨part, .member bodyMember (.item (List.of_mem_zip paired).2 within), written⟩
    · exact ⟨_, .self, .program heads bodyMember same each⟩
  | expressionStatement heads own below ih =>
    obtain ⟨child, mem, deeper⟩ | rfl := Tree.mem_nodes_iff.mp member
    · obtain rfl := List.mem_singleton.mp mem
      obtain ⟨part, within, written⟩ := ih deeper
      exact ⟨part, .member own within, written⟩
    · exact ⟨_, .self, .expressionStatement heads own below⟩
  | binary heads operator leftMember rightMember leftBelow rightBelow leftIH rightIH =>
    obtain ⟨child, mem, deeper⟩ | rfl := Tree.mem_nodes_iff.mp member
    · obtain rfl | mem := List.mem_cons.mp mem
      · obtain ⟨part, within, written⟩ := leftIH deeper
        exact ⟨part, .member leftMember within, written⟩
      · obtain rfl := List.mem_singleton.mp mem
        obtain ⟨part, within, written⟩ := rightIH deeper
        exact ⟨part, .member rightMember within, written⟩
    · exact ⟨_, .self, .binary heads operator leftMember rightMember leftBelow rightBelow⟩
  | literal heads values tellsRaw =>
    obtain rfl := List.mem_singleton.mp member
    exact ⟨_, .self, .literal heads values tellsRaw⟩
  | leaf heads =>
    obtain rfl := List.mem_singleton.mp member
    exact ⟨_, .self, .leaf heads⟩

/-- The members of a node that tells its span by `start` and `end`. -/
def headed (type : String) (span : Span) (parts : Members) : Members :=
  ("type", .string type) :: ("start", .integer span.start) :: ("end", .integer span.stop) :: parts

/-- The members that hold the value of a literal. -/
def valueMembers : Literal → Members
  | .null => [("value", .null)]
  | .boolean b => [("value", .boolean b)]
  | .number x => [("value", .float x)]
  | .string s => [("value", .string s)]
  | .regExp pattern flags =>
    [("value", .null), ("regex", .object [("pattern", .string pattern), ("flags", .string flags)])]
  | .bigInt digits => [("value", .null), ("bigint", .string digits)]

def rawMembers : Option String → Members
  | none => []
  | some text => [("raw", .string text)]

mutual

/-- A document of a tree. -/
def encode : Tree → Json
  | .program span body =>
    .object (headed "Program" span [("body", .array (encodeAll body))])
  | .expressionStatement span expression =>
    .object (headed "ExpressionStatement" span [("expression", encode expression)])
  | .binary span operator left right =>
    .object (headed "BinaryExpression" span
      [("left", encode left), ("operator", .string operator.token), ("right", encode right)])
  | .literal span value raw =>
    .object (headed "Literal" span (valueMembers value ++ rawMembers raw))
  | .leaf span kind => .object (headed kind.name span [])

def encodeAll : List Tree → List Json
  | [] => []
  | tree :: rest => encode tree :: encodeAll rest

end

theorem encodeAll_eq (body : List Tree) : encodeAll body = body.map encode := by
  induction body with
  | nil => rfl
  | cons tree rest ih => rw [encodeAll, ih, List.map_cons]

theorem heads_headed {type : String} {span : Span} {parts : Members}
    (distinct : Distinct (headed type span parts)) (noRange : Lacks parts "range") :
    Heads type span (headed type span parts) where
  distinct := distinct
  type := by simp [headed]
  span := .ends (by simp [headed]) (by simp [headed]) (by simpa [headed] using noRange)

theorem lacks_rawMembers {key : String} (other : key ≠ "raw") (raw : Option String) :
    Lacks (rawMembers raw) key := by
  cases raw <;> simp [rawMembers, other]

theorem writes_literal {value : Literal} (writable : value.Writable) (span : Span)
    (raw : Option String) : Writes (.literal span value raw) (encode (.literal span value raw)) := by
  rw [encode]
  refine .literal (heads_headed ?_ ?_) ?_ ?_
  · cases value <;> cases raw <;> simp [headed, valueMembers, rawMembers]
  · cases value <;> simp [valueMembers, lacks_rawMembers]
  · have lacks {key : String} (other : key ≠ "raw") := lacks_rawMembers other raw
    cases value with
    | null => refine .plain .null ?_ ?_ ?_ <;> simp [headed, valueMembers, lacks]
    | boolean b => refine .plain (.boolean b) ?_ ?_ ?_ <;> simp [headed, valueMembers, lacks]
    | number x => refine .plain (.float writable) ?_ ?_ ?_ <;> simp [headed, valueMembers, lacks]
    | string s => refine .plain (.string s) ?_ ?_ ?_ <;> simp [headed, valueMembers, lacks]
    | regExp pattern flags =>
      let parts : Members := [("pattern", .string pattern), ("flags", .string flags)]
      have told : ("regex", .object parts) ∈
          headed "Literal" span (valueMembers (.regExp pattern flags) ++ rawMembers raw) := by
        simp [headed, valueMembers, parts]
      refine .regExp ?_ ?_ ?_ told ?_ <;> simp [headed, valueMembers, lacks, parts]
    | bigInt digits => refine .bigInt ?_ ?_ <;> simp [headed, valueMembers, lacks]
  · cases raw with
    | none => cases value <;> simp [TellsRaw, headed, valueMembers, rawMembers]
    | some text => simp [TellsRaw, headed, rawMembers]

theorem writes_encode {tree : Tree} (writable : ∀ node ∈ tree.nodes, node.Writable) :
    Writes tree (encode tree) := by
  induction tree using Tree.of_children with
  | step tree ih =>
    have below (child : Tree) (member : child ∈ tree.children) : Writes child (encode child) :=
      ih child member fun node deeper => writable node (Tree.mem_nodes_of_child member deeper)
    cases tree with
    | program span body =>
      have zipped : body.zip (body.map encode) = body.map fun child => (child, encode child) := by
        rw [← List.zip_map', List.map_id']
      rw [encode, encodeAll_eq]
      refine .program (heads_headed ?_ ?_) ?_ (List.length_map encode).symm ?_
      · simp [headed]
      · simp
      · simp [headed]
      · intro child item paired
        rw [zipped, List.mem_map] at paired
        obtain ⟨_, member, same⟩ := paired
        cases same
        exact below child member
    | expressionStatement span expression =>
      refine .expressionStatement (heads_headed ?_ ?_) ?_ (below expression ?_)
      all_goals simp [headed, Tree.children]
    | binary span operator left right =>
      refine .binary (heads_headed ?_ ?_) ?_ ?_ ?_ (below left ?_) (below right ?_)
      all_goals simp [headed, Tree.children]
    | literal span value raw =>
      exact writes_literal (writable _ (Tree.mem_nodes_self _)).2 span raw
    | leaf span kind =>
      refine .leaf (heads_headed ?_ ?_)
      all_goals simp [headed]

end Estree
end Redex
